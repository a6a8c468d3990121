import Diamnet.Bucket.Bucket

/-! What a merge does to each key.

The loop of a merge goes over two sorted buckets and steps along with sorted shadows. Each
of its turns decides on one key (`Places`), the smallest that is left; by induction on the
turns the whole merge decides on every key on its own (`Bucket.merge_eq`): the two records
of the key combine as `Record.combine` says, and the result is dropped where a shadow or
the last level asks for it. -/
namespace Diamnet.Buckets
open BucketOutputIterator List Record

variable {K E : Type} [LinearOrder K]

/-! ### What is put -/

omit [LinearOrder K] in
theorem checkProtocolLegality_eq {entry : BucketEntry K E} {version : Nat}
    (h : entry.record.isInit = true → FIRST_PROTOCOL_SUPPORTING_INITENTRY_AND_METAENTRY ≤ version) :
    checkProtocolLegality entry version = .ok () := by
  unfold checkProtocolLegality
  rw [if_neg fun hn => Nat.not_lt.mpr (h hn.2) hn.1]
  rfl

namespace BucketOutputIterator

def elides (out : BucketOutputIterator K E) (r : Record E) : Bool := !out.keepDeadEntries && r.isDead

/-- Putting an entry with a greater key adds it, unless it is a deletion on the last level. -/
theorem put_eq {out : BucketOutputIterator K E} {e : BucketEntry K E}
    (hlegal : e.record.isInit = true → FIRST_PROTOCOL_SUPPORTING_INITENTRY_AND_METAENTRY ≤ out.ledgerVersion)
    (hlt : ∀ b ∈ out.buf, b.key < e.key) :
    ∃ out', out.put e = .ok out' ∧ out'.keepDeadEntries = out.keepDeadEntries ∧
      out'.ledgerVersion = out.ledgerVersion ∧
      out'.buf = if out.elides e.record then out.buf else e :: out.buf := by
  unfold put elides
  rw [dif_neg fun hn => Nat.not_lt.mpr (hlegal hn.2) hn.1]
  by_cases hdrop : (!out.keepDeadEntries && e.record.isDead) = true
  · rw [if_pos hdrop, if_pos hdrop]
    exact ⟨out, rfl, rfl, rfl, rfl⟩
  · rw [if_neg hdrop, if_neg hdrop]
    split
    · exact ⟨_, rfl, rfl, rfl, by simp [push, ‹out.buf = []›]⟩
    · rename_i b rest hbuf
      have hb : b.key < e.key := hlt b (by rw [hbuf]; exact .head _)
      rw [dif_neg (not_lt.mpr hb.le), dif_pos hb]
      exact ⟨_, rfl, rfl, rfl, by simp [push, hbuf]⟩

end BucketOutputIterator

/-! ### Shadows -/

/-- Whether one of the iterators still comes to the key. -/
def shadowed (shadows : List (List (BucketEntry K E))) (k : K) : Bool :=
  shadows.any fun si => (recordOf si k).isSome

variable {k key : K}

theorem recordOf_dropWhile {si : List (BucketEntry K E)} (h : ¬k < key) :
    recordOf (si.dropWhile fun e => e.key < key) k = recordOf si k := by
  induction si with
  | nil => rfl
  | cons e si ih =>
    by_cases he : e.key < key
    · rw [dropWhile_cons_of_pos (by simpa using he), ih, recordOf_cons, if_neg]
      rintro rfl
      exact h he
    · rw [dropWhile_cons_of_neg (by simpa using he)]

/-- At the first entry that is not below a key, the iterator is at the key if it has it. -/
theorem head_dropWhile {si : List (BucketEntry K E)} (hs : si.Pairwise fun a b => a.key < b.key) (key : K) :
    ((si.dropWhile fun e => e.key < key).head?.any fun e => e.key = key) = (recordOf si key).isSome := by
  rw [← recordOf_dropWhile (lt_irrefl key)]
  have hs' : (si.dropWhile fun e => e.key < key).Pairwise fun a b => a.key < b.key :=
    hs.sublist (dropWhile_sublist _)
  cases hsi : si.dropWhile fun e => e.key < key with
  | nil => rfl
  | cons e rest =>
    have he : ¬e.key < key := by
      have := head?_dropWhile_not (fun e : BucketEntry K E => decide (e.key < key)) si
      rw [hsi] at this
      simpa using this
    rw [recordOf_cons]
    by_cases hk : e.key = key
    · simp [hk]
    · rw [hsi] at hs'
      have hrest : recordOf rest key = none := recordOf_eq_none fun a ha hak =>
        absurd (hak ▸ rel_of_pairwise_cons hs' ha) (not_lt.mpr (lt_of_le_of_ne (not_lt.mp he) (Ne.symm hk)).le)
      simp [hk, hrest]

def AllSorted (shadows : List (List (BucketEntry K E))) : Prop :=
  ∀ si ∈ shadows, si.Pairwise fun a b => a.key < b.key

variable {shadows : List (List (BucketEntry K E))}

theorem scanShadows_spec (hs : AllSorted shadows) (key : K) :
    (scanShadows key shadows).2 = shadowed shadows key ∧ AllSorted (scanShadows key shadows).1 ∧
      ∀ k, key < k → shadowed (scanShadows key shadows).1 k = shadowed shadows k := by
  induction shadows with
  | nil => exact ⟨rfl, hs, fun _ _ => rfl⟩
  | cons si rest ih =>
    obtain ⟨hsi, hrest⟩ := forall_mem_cons.mp hs
    obtain ⟨hfound, hsorted, hlater⟩ := ih hrest
    have hdropped : (si.dropWhile fun e => e.key < key).Pairwise fun a b => a.key < b.key :=
      hsi.sublist (dropWhile_sublist _)
    have hhead := head_dropWhile hsi key
    have hkept : ∀ k, key < k → (recordOf (si.dropWhile fun e => e.key < key) k).isSome = (recordOf si k).isSome :=
      fun k hk => by rw [recordOf_dropWhile (not_lt.mpr hk.le)]
    unfold scanShadows
    by_cases hany : (recordOf si key).isSome = true
    · simp only [hhead, hany, if_true]
      exact ⟨by simp [shadowed, hany], forall_mem_cons.mpr ⟨hdropped, hrest⟩,
        fun k hk => by simp [shadowed, hkept k hk]⟩
    · simp only [hhead, hany]
      exact ⟨by simpa [shadowed, hany] using hfound, forall_mem_cons.mpr ⟨hdropped, hsorted⟩,
        fun k hk => by simpa [shadowed, hkept k hk] using congrArg ((recordOf si k).isSome || ·) (hlater k hk)⟩

/-! ### What a merge does to each key -/

/-- Whether a merge of this version drops a record for a shadow: a creation or deletion may
have to be kept. -/
def shadowedOut (protocolVersion : Nat) (isShadowed : Bool) (r : Record E) : Bool :=
  isShadowed && !(keepsShadowedLifecycleEntries protocolVersion && !r.isLive)

/-- Whether a merge drops a record: for a shadow, or as a deletion on the last level. -/
def dropped (protocolVersion : Nat) (keepDeadEntries isShadowed : Bool) (r : Record E) : Bool :=
  shadowedOut protocolVersion isShadowed r || (!keepDeadEntries && r.isDead)

/-- The output and the iterators over the shadows. -/
abbrev MergeState (K E : Type) [LinearOrder K] := BucketOutputIterator K E × List (List (BucketEntry K E))

/-- What one turn of the loop does: it decides on one key. -/
structure Places (protocolVersion : Nat) (key : K) (r : Option (Record E)) (s s' : MergeState K E) : Prop where
  keepDeadEntries : s'.1.keepDeadEntries = s.1.keepDeadEntries
  ledgerVersion : s'.1.ledgerVersion = s.1.ledgerVersion
  record : recordOf s'.1.buf key =
    r.filter fun r => !dropped protocolVersion s.1.keepDeadEntries (shadowed s.2 key) r
  others : ∀ k, k ≠ key → recordOf s'.1.buf k = recordOf s.1.buf k
  keys : ∀ b ∈ s'.1.buf, b ∈ s.1.buf ∨ b.key = key
  sorted : AllSorted s'.2
  later : ∀ k, key < k → shadowed s'.2 k = shadowed s.2 k

variable {out : BucketOutputIterator K E}

theorem recordOf_buf_eq_none (h : ∀ b ∈ out.buf, b.key < key) : recordOf out.buf key = none :=
  recordOf_eq_none fun b hb => (h b hb).ne

variable {e : BucketEntry K E}

theorem put_places (protocolVersion : Nat) {shadows' : List (List (BucketEntry K E))}
    (hlt : ∀ b ∈ out.buf, b.key < e.key)
    (hlegal : e.record.isInit = true → FIRST_PROTOCOL_SUPPORTING_INITENTRY_AND_METAENTRY ≤ out.ledgerVersion)
    (hkept : shadowedOut protocolVersion (shadowed shadows e.key) e.record = false) (hsorted : AllSorted shadows')
    (hlater : ∀ k, e.key < k → shadowed shadows' k = shadowed shadows k) :
    ∃ out', out.put e = .ok out' ∧
      Places protocolVersion e.key (some e.record) (out, shadows) (out', shadows') := by
  obtain ⟨out', hput, hkeep, hversion, hbuf⟩ := put_eq hlegal hlt
  refine ⟨out', hput, hkeep, hversion, ?_, ?_, ?_, hsorted, hlater⟩
  · have hdropped : dropped protocolVersion out.keepDeadEntries (shadowed shadows e.key) e.record =
        out.elides e.record := by
      simp only [dropped, hkept, Bool.false_or, elides]
    simp only [hbuf, Option.filter_some, hdropped]
    by_cases hdrop : out.elides e.record = true
    · simp [hdrop, recordOf_buf_eq_none hlt]
    · simp [hdrop, recordOf_cons]
  · intro k hk
    simp only [hbuf]
    by_cases hdrop : out.elides e.record = true
    · rw [if_pos hdrop]
    · rw [if_neg hdrop, recordOf_cons, if_neg (Ne.symm hk)]
  · intro b hb
    simp only [hbuf] at hb
    split at hb
    · exact .inl hb
    · exact (mem_cons.mp hb).elim (fun h => .inr (h ▸ rfl)) .inl

variable {protocolVersion : Nat}

theorem maybePut_places (hlt : ∀ b ∈ out.buf, b.key < e.key)
    (hlegal : e.record.isInit = true → FIRST_PROTOCOL_SUPPORTING_INITENTRY_AND_METAENTRY ≤ out.ledgerVersion)
    (hs : AllSorted shadows) :
    ∃ s', maybePut out e shadows (keepsShadowedLifecycleEntries protocolVersion) = .ok s' ∧
      Places protocolVersion e.key (some e.record) (out, shadows) s' := by
  obtain ⟨hfound, hsorted, hlater⟩ := scanShadows_spec hs e.key
  unfold maybePut
  by_cases hkeep : (keepsShadowedLifecycleEntries protocolVersion && !e.record.isLive) = true
  · rw [if_pos hkeep]
    obtain ⟨out', hput, hplaces⟩ := put_places protocolVersion hlt hlegal
      (by rw [shadowedOut, hkeep]; simp) hs fun _ _ => rfl
    exact ⟨(out', shadows), by rw [hput]; rfl, hplaces⟩
  · rw [if_neg hkeep]
    by_cases hshadowed : shadowed shadows e.key = true
    · simp only [hfound, hshadowed, if_true]
      refine ⟨_, rfl, rfl, rfl, ?_, fun _ _ => rfl, fun b hb => .inl hb, hsorted, hlater⟩
      simp only [recordOf_buf_eq_none hlt, Option.filter_some, dropped, shadowedOut, hshadowed,
        Bool.eq_false_of_not_eq_true hkeep,
        Bool.not_false, Bool.true_and, Bool.true_or, Bool.not_true, Bool.false_eq_true, if_false]
    · simp only [hfound, hshadowed]
      obtain ⟨out', hput, hplaces⟩ := put_places protocolVersion hlt hlegal
        (by simp [shadowedOut, hshadowed]) hsorted hlater
      exact ⟨(out', _), by rw [hput]; rfl, hplaces⟩

/-- Where the loop is: what is left has greater keys than what was put, and the iterators
over the shadows still know every key that is left. -/
structure Aligned (protocolVersion : Nat) (shadows : List (List (BucketEntry K E)))
    (old new : List (BucketEntry K E)) (s : MergeState K E) : Prop where
  version : s.1.ledgerVersion = protocolVersion
  oldSorted : old.Pairwise fun a b => a.key < b.key
  newSorted : new.Pairwise fun a b => a.key < b.key
  oldAbove : ∀ b ∈ s.1.buf, ∀ e ∈ old, b.key < e.key
  newAbove : ∀ b ∈ s.1.buf, ∀ e ∈ new, b.key < e.key
  oldLegal : Legal protocolVersion old
  newLegal : Legal protocolVersion new
  sorted : AllSorted s.2
  oldShadowed : ∀ e ∈ old, shadowed s.2 e.key = shadowed shadows e.key
  newShadowed : ∀ e ∈ new, shadowed s.2 e.key = shadowed shadows e.key

variable {s : MergeState K E}

/-- After a turn that decided on `key`, with the smaller of the two lists' heads taken. -/
theorem Aligned.advance {old new old' new' : List (BucketEntry K E)} {s' : MergeState K E} {r : Option (Record E)}
    (h : Aligned protocolVersion shadows old new s) (hp : Places protocolVersion key r s s')
    (hold : old'.Sublist old) (hnew : new'.Sublist new) (holdAbove : ∀ e ∈ old', key < e.key)
    (hnewAbove : ∀ e ∈ new', key < e.key) : Aligned protocolVersion shadows old' new' s' where
  version := hp.ledgerVersion.trans h.version
  oldSorted := h.oldSorted.sublist hold
  newSorted := h.newSorted.sublist hnew
  oldAbove := fun b hb e he =>
    (hp.keys b hb).elim (fun hb => h.oldAbove b hb e (hold.mem he)) fun hb => hb ▸ holdAbove e he
  newAbove := fun b hb e he =>
    (hp.keys b hb).elim (fun hb => h.newAbove b hb e (hnew.mem he)) fun hb => hb ▸ hnewAbove e he
  oldLegal := fun e he => h.oldLegal e (hold.mem he)
  newLegal := fun e he => h.newLegal e (hnew.mem he)
  sorted := hp.sorted
  oldShadowed := fun e he => (hp.later _ (holdAbove e he)).trans (h.oldShadowed e (hold.mem he))
  newShadowed := fun e he => (hp.later _ (hnewAbove e he)).trans (h.newShadowed e (hnew.mem he))

/-- What the loop leaves of a key that is still to come. -/
def remains (protocolVersion : Nat) (keepDeadEntries : Bool) (shadows : List (List (BucketEntry K E)))
    (old new : List (BucketEntry K E)) (k : K) : Option (Record E) :=
  (combine (recordOf old k) (recordOf new k)).join.filter fun r =>
    !dropped protocolVersion keepDeadEntries (shadowed shadows k) r

/-- What the loop owes: it does not stop, and decides on every key. -/
def Merges (protocolVersion : Nat) (shadows : List (List (BucketEntry K E))) (old new : List (BucketEntry K E))
    (s : MergeState K E) (result : Except MergeError (BucketOutputIterator K E)) : Prop :=
  ∃ out, result = .ok out ∧ out.ledgerVersion = protocolVersion ∧ ∀ k, recordOf out.buf k =
    (recordOf s.1.buf k).or (remains protocolVersion s.1.keepDeadEntries shadows old new k)

theorem Merges.of_places {old new old' new' : List (BucketEntry K E)} {s' : MergeState K E}
    {result : Except MergeError (BucketOutputIterator K E)}
    (hp : Places protocolVersion key (combine (recordOf old key) (recordOf new key)).join s s')
    (hshadowed : shadowed s.2 key = shadowed shadows key) (hbuf : ∀ b ∈ s.1.buf, b.key < key)
    (holdAbove : ∀ e ∈ old', key < e.key) (hnewAbove : ∀ e ∈ new', key < e.key)
    (hold : ∀ k, k ≠ key → recordOf old' k = recordOf old k)
    (hnew : ∀ k, k ≠ key → recordOf new' k = recordOf new k)
    (h : Merges protocolVersion shadows old' new' s' result) : Merges protocolVersion shadows old new s result := by
  obtain ⟨out, hresult, hversion, hrecords⟩ := h
  refine ⟨out, hresult, hversion, fun k => ?_⟩
  rw [hrecords, hp.keepDeadEntries]
  by_cases hk : k = key
  · subst hk
    rw [hp.record, hshadowed, recordOf_buf_eq_none hbuf]
    simp [remains, recordOf_eq_none fun e he => (holdAbove e he).ne', recordOf_eq_none fun e he => (hnewAbove e he).ne',
      combine]
  · simp only [hp.others k hk, remains, hold k hk, hnew k hk]

theorem acceptEntry_places (hversion : s.1.ledgerVersion = protocolVersion) (hlt : ∀ b ∈ s.1.buf, b.key < e.key)
    (hlegal : e.record.isInit = true → FIRST_PROTOCOL_SUPPORTING_INITENTRY_AND_METAENTRY ≤ protocolVersion)
    (hs : AllSorted s.2) :
    ∃ s', acceptEntry protocolVersion e s.2 s.1 = .ok s' ∧ Places protocolVersion e.key (some e.record) s s' := by
  unfold acceptEntry
  rw [checkProtocolLegality_eq hlegal, ok_bind]
  exact maybePut_places hlt (hversion ▸ hlegal) hs

theorem mergeCasesWithEqualKeys_places {o w : BucketEntry K E} {r : Option (Record E)}
    (hversion : s.1.ledgerVersion = protocolVersion) (hlt : ∀ b ∈ s.1.buf, b.key < w.key)
    (hold : o.record.isInit = true → FIRST_PROTOCOL_SUPPORTING_INITENTRY_AND_METAENTRY ≤ protocolVersion)
    (hnew : w.record.isInit = true → FIRST_PROTOCOL_SUPPORTING_INITENTRY_AND_METAENTRY ≤ protocolVersion)
    (hs : AllSorted s.2) (hr : combine (some o.record) (some w.record) = some r) :
    ∃ s', mergeCasesWithEqualKeys protocolVersion o w s.2 s.1 = .ok s' ∧ Places protocolVersion w.key r s s' := by
  unfold mergeCasesWithEqualKeys
  rw [checkProtocolLegality_eq hold, checkProtocolLegality_eq hnew, ok_bind, ok_bind, hr]
  cases r with
  | none =>
    refine ⟨s, rfl, rfl, rfl, ?_, fun _ _ => rfl, fun b hb => .inl hb, hs, fun _ _ => rfl⟩
    exact recordOf_buf_eq_none hlt
  | some r =>
    refine maybePut_places (e := ⟨w.key, r⟩) hlt ?_ hs
    intro hinit
    rw [hversion]
    rcases isInit_of_combine hr hinit with ⟨a, ha, hinit⟩ | ⟨a, ha, hinit⟩
    · cases ha
      exact hold hinit
    · cases ha
      exact hnew hinit

theorem recordOf_tail {l : List (BucketEntry K E)} (hk : k ≠ e.key) : recordOf l k = recordOf (e :: l) k := by
  rw [recordOf_cons, if_neg (Ne.symm hk)]

/-- **The loop of a merge**: with enough turns for what is left it does not stop, and decides
on every key that is left as the table says. -/
theorem mergeLoop_merges (n : Nat) {old new : List (BucketEntry K E)} (hn : old.length + new.length ≤ n)
    (h : Aligned protocolVersion shadows old new s)
    (hcombine : ∀ k, ∃ r, combine (recordOf old k) (recordOf new k) = some r) :
    Merges protocolVersion shadows old new s (mergeLoop protocolVersion n old new s.2 s.1) := by
  induction n generalizing old new s with
  | zero =>
    obtain ⟨rfl, rfl⟩ : old = [] ∧ new = [] := by
      simpa using hn
    exact ⟨s.1, rfl, h.version, fun k => by simp [remains, combine]⟩
  | succ n ih =>
    -- one turn, whichever it is: it decides on `key`, and the rest is the induction
    have turn : ∀ (key : K) {s' : MergeState K E} {old' new' : List (BucketEntry K E)},
        Places protocolVersion key (combine (recordOf old key) (recordOf new key)).join s s' →
        shadowed s.2 key = shadowed shadows key → (∀ b ∈ s.1.buf, b.key < key) →
        old'.Sublist old → new'.Sublist new → (∀ e ∈ old', key < e.key) → (∀ e ∈ new', key < e.key) →
        (∀ k, k ≠ key → recordOf old' k = recordOf old k) → (∀ k, k ≠ key → recordOf new' k = recordOf new k) →
        old'.length + new'.length ≤ n →
        Merges protocolVersion shadows old new s (mergeLoop protocolVersion n old' new' s'.2 s'.1) := by
      intro key s' old' new' hp hshadowed hbuf hold hnew holdAbove hnewAbove hrold hrnew hlen
      refine Merges.of_places hp hshadowed hbuf holdAbove hnewAbove hrold hrnew ?_
      refine ih hlen (h.advance hp hold hnew holdAbove hnewAbove) fun k => ?_
      by_cases hk : k = key
      · subst hk
        rw [recordOf_eq_none fun e he => (holdAbove e he).ne', recordOf_eq_none fun e he => (hnewAbove e he).ne']
        exact ⟨none, rfl⟩
      · rw [hrold k hk, hrnew k hk]
        exact hcombine k
    -- the head of one list is below all of the other
    have takeOld : ∀ o os, old = o :: os → (∀ e ∈ new, o.key < e.key) → Merges protocolVersion shadows old new s
        (acceptEntry protocolVersion o s.2 s.1 >>= fun s' => mergeLoop protocolVersion n os new s'.2 s'.1) := by
      rintro o os rfl hlt
      have hbuf : ∀ b ∈ s.1.buf, b.key < o.key := fun b hb => h.oldAbove b hb o (.head _)
      obtain ⟨s', hrun, hp⟩ := acceptEntry_places h.version hbuf (h.oldLegal o (.head _)) h.sorted
      rw [hrun, ok_bind]
      refine turn o.key ?_ (h.oldShadowed o (.head _)) hbuf (sublist_cons_self o os) (Sublist.refl _)
        (fun e he => rel_of_pairwise_cons h.oldSorted he) hlt (fun k hk => recordOf_tail hk) (fun _ _ => rfl)
        (by simp at hn ⊢; omega)
      rw [recordOf_eq_none fun e he => (hlt e he).ne']
      simpa [recordOf_cons, combine] using hp
    have takeNew : ∀ w ws, new = w :: ws → (∀ e ∈ old, w.key < e.key) → Merges protocolVersion shadows old new s
        (acceptEntry protocolVersion w s.2 s.1 >>= fun s' => mergeLoop protocolVersion n old ws s'.2 s'.1) := by
      rintro w ws rfl hlt
      have hbuf : ∀ b ∈ s.1.buf, b.key < w.key := fun b hb => h.newAbove b hb w (.head _)
      obtain ⟨s', hrun, hp⟩ := acceptEntry_places h.version hbuf (h.newLegal w (.head _)) h.sorted
      rw [hrun, ok_bind]
      refine turn w.key ?_ (h.newShadowed w (.head _)) hbuf (Sublist.refl _) (sublist_cons_self w ws)
        hlt (fun e he => rel_of_pairwise_cons h.newSorted he) (fun _ _ => rfl) (fun k hk => recordOf_tail hk)
        (by simp at hn ⊢; omega)
      rw [recordOf_eq_none fun e he => (hlt e he).ne']
      simpa [recordOf_cons, combine] using hp
    cases old with
    | nil =>
      cases new with
      | nil => exact ⟨s.1, rfl, h.version, fun k => by simp [remains, combine]⟩
      | cons w ws => exact takeNew w ws rfl (by simp)
    | cons o os =>
      have hos : ∀ e ∈ os, o.key < e.key := fun e he => rel_of_pairwise_cons h.oldSorted he
      cases new with
      | nil => exact takeOld o os rfl (by simp)
      | cons w ws =>
        have hws : ∀ e ∈ ws, w.key < e.key := fun e he => rel_of_pairwise_cons h.newSorted he
        unfold mergeLoop
        by_cases how : o.key < w.key
        · rw [if_pos how]
          exact takeOld o os rfl (forall_mem_cons.mpr ⟨how, fun e he => how.trans (hws e he)⟩)
        rw [if_neg how]
        by_cases hwo : w.key < o.key
        · rw [if_pos hwo]
          exact takeNew w ws rfl (forall_mem_cons.mpr ⟨hwo, fun e he => hwo.trans (hos e he)⟩)
        · rw [if_neg hwo]
          have hkey : o.key = w.key := le_antisymm (not_lt.mp hwo) (not_lt.mp how)
          have hbuf : ∀ b ∈ s.1.buf, b.key < w.key := fun b hb => h.newAbove b hb w (.head _)
          obtain ⟨r, hr⟩ := hcombine w.key
          have hr' : combine (some o.record) (some w.record) = some r := by
            simpa [recordOf_cons, hkey] using hr
          obtain ⟨s', hrun, hp⟩ := mergeCasesWithEqualKeys_places h.version hbuf (h.oldLegal o (.head _))
            (h.newLegal w (.head _)) h.sorted hr'
          rw [hrun, ok_bind]
          refine turn w.key ?_ (h.newShadowed w (.head _)) hbuf (sublist_cons_self o os)
            (sublist_cons_self w ws) (fun e he => hkey ▸ hos e he) hws
            (fun k hk => recordOf_tail (hkey ▸ hk)) (fun k hk => recordOf_tail hk) (by simp at hn ⊢; omega)
          rw [hr]
          exact hp

/-! ### Merges of buckets -/

theorem le_raiseVersion (version : Nat) (si : Bucket K E) : version ≤ raiseVersion version si := by
  unfold raiseVersion
  split
  · exact le_max_right _ _
  · exact le_rfl

theorem le_foldl_raiseVersion (version : Nat) (shadows : List (Bucket K E)) :
    version ≤ shadows.foldl raiseVersion version := by
  induction shadows generalizing version with
  | nil => exact le_rfl
  | cons si rest ih => exact (le_raiseVersion version si).trans (ih _)

theorem old_le_mergeProtocolVersion (old new : Bucket K E) (shadows : List (Bucket K E)) :
    old.version ≤ mergeProtocolVersion old new shadows :=
  (le_max_left _ _).trans (le_foldl_raiseVersion _ shadows)

theorem new_le_mergeProtocolVersion (old new : Bucket K E) (shadows : List (Bucket K E)) :
    new.version ≤ mergeProtocolVersion old new shadows :=
  (le_max_right _ _).trans (le_foldl_raiseVersion _ shadows)

variable {new old : Bucket K E}

theorem shadow_le_mergeProtocolVersion {shadows : List (Bucket K E)} {si : Bucket K E} (hsi : si ∈ shadows)
    (hversion : si.version < FIRST_PROTOCOL_SHADOWS_REMOVED) : si.version ≤ mergeProtocolVersion old new shadows := by
  unfold mergeProtocolVersion
  generalize max old.version new.version = v
  induction shadows generalizing v with
  | nil => cases hsi
  | cons a rest ih =>
    rcases mem_cons.mp hsi with rfl | hsi
    · refine le_trans ?_ (le_foldl_raiseVersion _ rest)
      rw [raiseVersion, if_pos hversion]
      exact le_max_left _ _
    · exact ih hsi _

theorem mergeProtocolVersion_le {shadows : List (Bucket K E)} {p : Nat} (hold : old.version ≤ p)
    (hnew : new.version ≤ p)
    (hshadows : ∀ si ∈ shadows, si.version < FIRST_PROTOCOL_SHADOWS_REMOVED → si.version ≤ p) :
    mergeProtocolVersion old new shadows ≤ p := by
  unfold mergeProtocolVersion
  have hv := max_le hold hnew
  generalize max old.version new.version = v at hv
  induction shadows generalizing v with
  | nil => exact hv
  | cons si rest ih =>
    refine ih (fun a ha => hshadows a (.tail _ ha)) _ ?_
    unfold raiseVersion
    split
    · exact max_le (hshadows si (.head _) ‹_›) hv
    · exact hv

theorem BucketOutputIterator.getBucket_find? (out : BucketOutputIterator K E) (k : K) :
    out.getBucket.find? k = recordOf out.buf k :=
  recordOf_perm (pairwise_reverse.mpr (out.sorted.imp ne_of_lt)) (reverse_perm _) k

theorem BucketOutputIterator.getBucket_version (out : BucketOutputIterator K E) : out.getBucket.version =
    if FIRST_PROTOCOL_SUPPORTING_INITENTRY_AND_METAENTRY ≤ out.ledgerVersion then out.ledgerVersion else 0 := by
  unfold getBucket Bucket.version
  by_cases h : FIRST_PROTOCOL_SUPPORTING_INITENTRY_AND_METAENTRY ≤ out.ledgerVersion <;> simp [h]

theorem shadowed_map (shadows : List (Bucket K E)) (k : K) :
    shadowed (shadows.map (·.entries)) k = shadows.any fun si => (si.find? k).isSome := by
  simp [shadowed, Bucket.find?, any_map, Function.comp_def]

/-- **What a merge does to each key**, if the versions allow it and the records of each key
may follow each other. -/
theorem Bucket.merge_eq {maxProtocolVersion : Nat} {shadows : List (Bucket K E)} {keepDeadEntries : Bool}
    (hmax : mergeProtocolVersion old new shadows ≤ maxProtocolVersion)
    (hshadows : mergeProtocolVersion old new shadows < FIRST_PROTOCOL_SHADOWS_REMOVED ∨ shadows = [])
    (hcombine : ∀ k, ∃ r, combine (old.find? k) (new.find? k) = some r) :
    ∃ b, Bucket.merge maxProtocolVersion old new shadows keepDeadEntries = .ok b ∧
      (b.version = if FIRST_PROTOCOL_SUPPORTING_INITENTRY_AND_METAENTRY ≤ mergeProtocolVersion old new shadows then
        mergeProtocolVersion old new shadows else 0) ∧
      ∀ k, b.find? k = (combine (old.find? k) (new.find? k)).join.filter fun r =>
        !dropped (mergeProtocolVersion old new shadows) keepDeadEntries
          (shadows.any fun si => (si.find? k).isSome) r := by
  have hversion : calculateMergeProtocolVersion maxProtocolVersion old new shadows =
      .ok (mergeProtocolVersion old new shadows) := by
    unfold calculateMergeProtocolVersion
    rw [if_neg (Nat.not_lt.mpr hmax), if_neg fun h => hshadows.elim h.1 h.2]
    rfl
  have hlegal : ∀ b : Bucket K E, b.version ≤ mergeProtocolVersion old new shadows →
      Legal (mergeProtocolVersion old new shadows) b.entries :=
    fun b hb e he hinit => (b.legal e he hinit).trans hb
  have haligned : Aligned (mergeProtocolVersion old new shadows) (shadows.map (·.entries)) old.entries new.entries
      (.new keepDeadEntries (mergeProtocolVersion old new shadows), shadows.map (·.entries)) :=
    { version := rfl
      oldSorted := old.sorted
      newSorted := new.sorted
      oldAbove := fun b hb => (nomatch hb)
      newAbove := fun b hb => (nomatch hb)
      oldLegal := hlegal old (old_le_mergeProtocolVersion old new shadows)
      newLegal := hlegal new (new_le_mergeProtocolVersion old new shadows)
      sorted := fun si hsi => by
        obtain ⟨b, -, rfl⟩ := mem_map.mp hsi
        exact b.sorted
      oldShadowed := fun _ _ => rfl
      newShadowed := fun _ _ => rfl }
  obtain ⟨out, hout, houtVersion, hrecords⟩ := mergeLoop_merges _ le_rfl haligned hcombine
  refine ⟨out.getBucket, ?_, ?_, fun k => ?_⟩
  · unfold Bucket.merge
    rw [hversion, ok_bind, hout]
    rfl
  · rw [out.getBucket_version, houtVersion]
  · rw [out.getBucket_find?, hrecords k, ← shadowed_map]
    rfl

/-! ### Fresh buckets -/

theorem foldlM_put {entries : List (BucketEntry K E)} (hs : entries.Pairwise fun a b => a.key < b.key)
    {out : BucketOutputIterator K E} (hkeep : out.keepDeadEntries = true)
    (habove : ∀ b ∈ out.buf, ∀ e ∈ entries, b.key < e.key) (hlegal : Legal out.ledgerVersion entries) :
    ∃ out', entries.foldlM put out = .ok out' ∧ out'.ledgerVersion = out.ledgerVersion ∧
      out'.buf = entries.reverse ++ out.buf := by
  induction entries generalizing out with
  | nil => exact ⟨out, rfl, rfl, rfl⟩
  | cons e entries ih =>
    obtain ⟨out₁, hput, hkeep₁, hversion₁, hbuf₁⟩ := put_eq (hlegal e (.head _))
      fun b hb => habove b hb e (.head _)
    have hbuf : out₁.buf = e :: out.buf := by
      simpa [elides, hkeep] using hbuf₁
    have habove₁ : ∀ b ∈ out₁.buf, ∀ a ∈ entries, b.key < a.key := by
      rw [hbuf]
      refine forall_mem_cons.mpr ⟨fun a ha => rel_of_pairwise_cons hs ha, fun b hb a ha => ?_⟩
      exact habove b hb a (.tail _ ha)
    obtain ⟨out', hrun, hversion, hbuf'⟩ := ih hs.of_cons (hkeep₁.trans hkeep) habove₁
      (hversion₁ ▸ fun a ha => hlegal a (.tail _ ha))
    refine ⟨out', ?_, hversion.trans hversion₁, ?_⟩
    · rw [foldlM_cons, hput]
      exact hrun
    · rw [hbuf', hbuf]
      simp

omit [LinearOrder K] in
theorem Batch.legal_entries (protocolVersion : Nat) (batch : Batch K E) :
    Legal protocolVersion (batch.entries protocolVersion) := by
  intro e he hinit
  simp only [entries, mem_append, mem_map] at he
  rcases he with (⟨a, -, rfl⟩ | ⟨a, -, rfl⟩) | ⟨a, -, rfl⟩
  · by_contra hversion
    simp [hversion, isInit] at hinit
  · cases hinit
  · cases hinit

variable {batch : Batch K E}

theorem convertToBucketEntry_eq (hdistinct : (batch.entries protocolVersion).Pairwise fun a b => a.key ≠ b.key) :
    ∃ bucket, convertToBucketEntry protocolVersion batch = .ok bucket ∧
      bucket.Perm (batch.entries protocolVersion) ∧ bucket.Pairwise fun a b => a.key < b.key := by
  have hperm := perm_insertionSort (fun a b : BucketEntry K E => a.key ≤ b.key) (batch.entries protocolVersion)
  have hle := pairwise_insertionSort (fun a b : BucketEntry K E => a.key ≤ b.key) (batch.entries protocolVersion)
  have hne := (hperm.pairwise_iff fun hab => Ne.symm hab).mpr hdistinct
  have hlt := hle.imp₂ (fun _ _ h h' => lt_of_le_of_ne h h') hne
  refine ⟨_, ?_, hperm, hlt⟩
  unfold convertToBucketEntry
  rw [if_neg (not_not.mpr hlt.isChain)]
  rfl

theorem Bucket.fresh_eq (hdistinct : (batch.entries protocolVersion).Pairwise fun a b => a.key ≠ b.key) :
    ∃ b, Bucket.fresh protocolVersion batch = .ok b ∧
      (b.version = if FIRST_PROTOCOL_SUPPORTING_INITENTRY_AND_METAENTRY ≤ protocolVersion then protocolVersion else 0) ∧
      ∀ k, b.find? k = recordOf (batch.entries protocolVersion) k := by
  obtain ⟨bucket, hconvert, hperm, hlt⟩ := convertToBucketEntry_eq hdistinct
  have hlegal : Legal protocolVersion bucket := fun e he => batch.legal_entries protocolVersion e (hperm.mem_iff.mp he)
  obtain ⟨out, hrun, hversion, hbuf⟩ := @foldlM_put K E _ bucket hlt (.new true protocolVersion) rfl
    (fun b hb => (nomatch hb)) hlegal
  refine ⟨out.getBucket, ?_, ?_, fun k => ?_⟩
  · unfold Bucket.fresh
    rw [hconvert, ok_bind, hrun]
    rfl
  · rw [out.getBucket_version, hversion]
    rfl
  · rw [out.getBucket_find?, hbuf]
    refine (recordOf_perm hdistinct (hperm.symm.trans ?_) k).symm
    simp [new]

/-! ### Versions -/

theorem put_ledgerVersion (out : BucketOutputIterator K E) (e : BucketEntry K E) :
    Meets (out.put e) (fun out' => out'.ledgerVersion = out.ledgerVersion) (fun _ => True) := by
  unfold put
  split
  · trivial
  · split
    · rfl
    · split
      · rfl
      · split
        · trivial
        · split <;> rfl

theorem maybePut_ledgerVersion (out : BucketOutputIterator K E) (e : BucketEntry K E)
    (shadows : List (List (BucketEntry K E))) (keep : Bool) :
    Meets (maybePut out e shadows keep) (fun s => s.1.ledgerVersion = out.ledgerVersion) (fun _ => True) := by
  have hput := put_ledgerVersion out e
  unfold maybePut
  split
  · exact hput.bind fun _ h => h
  · split
    split
    · exact (rfl : out.ledgerVersion = out.ledgerVersion)
    · exact hput.bind fun _ h => h

theorem acceptEntry_ledgerVersion (version : Nat) (e : BucketEntry K E) (shadows : List (List (BucketEntry K E)))
    (out : BucketOutputIterator K E) :
    Meets (acceptEntry version e shadows out) (fun s => s.1.ledgerVersion = out.ledgerVersion) (fun _ => True) := by
  unfold acceptEntry
  cases checkProtocolLegality e version with
  | error e => trivial
  | ok _ => exact maybePut_ledgerVersion _ _ _ _

theorem mergeCasesWithEqualKeys_ledgerVersion (version : Nat) (old new : BucketEntry K E)
    (shadows : List (List (BucketEntry K E))) (out : BucketOutputIterator K E) :
    Meets (mergeCasesWithEqualKeys version old new shadows out) (fun s => s.1.ledgerVersion = out.ledgerVersion)
      (fun _ => True) := by
  unfold mergeCasesWithEqualKeys
  cases checkProtocolLegality old version with
  | error e => trivial
  | ok _ =>
    cases checkProtocolLegality new version with
    | error e => trivial
    | ok _ =>
      split
      · trivial
      · rfl
      · exact maybePut_ledgerVersion _ _ _ _

theorem mergeLoop_ledgerVersion (version n : Nat) (old new : List (BucketEntry K E))
    (shadows : List (List (BucketEntry K E))) (out : BucketOutputIterator K E) :
    Meets (mergeLoop version n old new shadows out) (fun out' => out'.ledgerVersion = out.ledgerVersion)
      (fun _ => True) := by
  induction n generalizing old new shadows out with
  | zero => exact (rfl : out.ledgerVersion = out.ledgerVersion)
  | succ n ih =>
    have hnext : ∀ {x : Except MergeError (MergeState K E)} {old new : List (BucketEntry K E)},
        Meets x (fun s => s.1.ledgerVersion = out.ledgerVersion) (fun _ => True) →
        Meets (x >>= fun s => mergeLoop version n old new s.2 s.1) (fun out' => out'.ledgerVersion = out.ledgerVersion)
          (fun _ => True) :=
      fun hx => hx.bind fun s hs => (ih _ _ _ _).mono (fun _ h => h.trans hs) fun _ h => h
    cases old with
    | nil =>
      cases new with
      | nil => exact (rfl : out.ledgerVersion = out.ledgerVersion)
      | cons w ws => exact hnext (acceptEntry_ledgerVersion _ _ _ _)
    | cons o os =>
      cases new with
      | nil => exact hnext (acceptEntry_ledgerVersion _ _ _ _)
      | cons w ws =>
        unfold mergeLoop
        split
        · exact hnext (acceptEntry_ledgerVersion _ _ _ _)
        · split
          · exact hnext (acceptEntry_ledgerVersion _ _ _ _)
          · exact hnext (mergeCasesWithEqualKeys_ledgerVersion _ _ _ _ _)

theorem Bucket.merge_version {maxProtocolVersion : Nat} {shadows : List (Bucket K E)} {keepDeadEntries : Bool}
    {b : Bucket K E} (h : Bucket.merge maxProtocolVersion old new shadows keepDeadEntries = .ok b) :
    b.version = if FIRST_PROTOCOL_SUPPORTING_INITENTRY_AND_METAENTRY ≤ mergeProtocolVersion old new shadows then
      mergeProtocolVersion old new shadows else 0 := by
  obtain ⟨version, hversion, h⟩ := bind_eq_ok.mp h
  obtain ⟨out, hout, hb⟩ := bind_eq_ok.mp h
  obtain rfl : version = mergeProtocolVersion old new shadows := by
    obtain ⟨-, hversion⟩ := refuse_eq_ok.mp hversion
    obtain ⟨-, hversion⟩ := refuse_eq_ok.mp hversion
    exact (Except.ok.inj hversion).symm
  rw [← Except.ok.inj hb, getBucket_version, (mergeLoop_ledgerVersion _ _ _ _ _ _).of_ok hout]
  rfl

theorem Bucket.fresh_version {b : Bucket K E} (h : Bucket.fresh protocolVersion batch = .ok b) :
    b.version = if FIRST_PROTOCOL_SUPPORTING_INITENTRY_AND_METAENTRY ≤ protocolVersion then protocolVersion else 0 := by
  obtain ⟨entries, -, h⟩ := bind_eq_ok.mp h
  obtain ⟨out, hout, h⟩ := bind_eq_ok.mp h
  have hversion : Meets (entries.foldlM put (.new true protocolVersion))
      (fun out => out.ledgerVersion = protocolVersion) (fun _ => True) :=
    Meets.foldlM entries (fun out hout e _ => (put_ledgerVersion out e).mono (fun _ h => h.trans hout) fun _ h => h) rfl
  rw [← Except.ok.inj h, getBucket_version, hversion.of_ok hout]

end Diamnet.Buckets
