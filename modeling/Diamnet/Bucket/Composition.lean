import Diamnet.Bucket.Layers

/-! Merging as composition.

Without shadows a merge composes the two records of each key. Where the records of a key come
from its lifecycle, creations right above deletions and nowhere else, composition is total and
associative, and so is the merge: a creation and its deletion annihilate whichever of three
buckets are merged first. Two buckets are equal if they say the same of every key, since their
entries are sorted. -/
namespace Diamnet.Buckets
open Record

variable {K E : Type} [LinearOrder K]

/-! ### Buckets with the same records -/

theorem mem_entries_iff {l : List (BucketEntry K E)} (hl : l.Pairwise fun a b => a.key < b.key) (e : BucketEntry K E) :
    e ∈ l ↔ recordOf l e.key = some e.record := by
  constructor
  · exact recordOf_of_mem (hl.imp ne_of_lt)
  · intro h
    obtain ⟨⟨key, record⟩, he', rfl, rfl⟩ := exists_of_recordOf h
    exact he'

theorem entries_eq {l l' : List (BucketEntry K E)} (hl : l.Pairwise fun a b => a.key < b.key)
    (hl' : l'.Pairwise fun a b => a.key < b.key) (h : ∀ k, recordOf l k = recordOf l' k) : l = l' := by
  have hperm : l.Perm l' := (List.perm_ext_iff_of_nodup (hl.imp fun h he => absurd (he ▸ h) (lt_irrefl _))
    (hl'.imp fun h he => absurd (he ▸ h) (lt_irrefl _))).mpr fun e => by
      rw [mem_entries_iff hl, mem_entries_iff hl', h]
  exact hperm.eq_of_pairwise (fun a b _ _ hab hba => absurd hab (lt_asymm hba)) hl hl'

theorem recordOf_filter {l : List (BucketEntry K E)} (hl : l.Pairwise fun a b => a.key < b.key) (p : Record E → Bool)
    (k : K) : recordOf (l.filter fun e => p e.record) k = (recordOf l k).filter p := by
  induction l with
  | nil => rfl
  | cons e l ih =>
    obtain ⟨he, hl⟩ := List.pairwise_cons.mp hl
    rw [List.filter_cons, recordOf_cons]
    by_cases hk : e.key = k
    · subst hk
      have hnone : recordOf l e.key = none := recordOf_eq_none fun a ha => (he a ha).ne'
      by_cases hp : p e.record
      · rw [if_pos hp, recordOf_cons, if_pos rfl, if_pos rfl, Option.filter_some_pos hp]
      · rw [if_neg hp, ih hl, hnone, if_pos rfl, Option.filter_some_neg (Bool.eq_false_iff.mpr hp)]
        rfl
    · rw [if_neg hk, ← ih hl]
      split
      · rw [recordOf_cons, if_neg hk]
      · rfl

/-! ### Merges without shadows -/

/-- The bucket is of a protocol without shadows that is in use. -/
def Supported (maxProtocolVersion : Nat) (b : Bucket K E) : Prop :=
  FIRST_PROTOCOL_SHADOWS_REMOVED ≤ b.version ∧ b.version ≤ maxProtocolVersion

section
variable {maxProtocolVersion : Nat} {old new : Bucket K E}

theorem Bucket.metadata_eq {b : Bucket K E} (h : FIRST_PROTOCOL_SHADOWS_REMOVED ≤ b.version) :
    b.metadata = some b.version := by
  unfold Bucket.version at h ⊢
  cases hm : b.metadata with
  | none =>
    rw [hm] at h
    cases h
  | some v => rfl

theorem Bucket.merge_compose (hold : Supported maxProtocolVersion old) (hnew : Supported maxProtocolVersion new)
    (h : ∀ k, Alternates ((new.find? k).toList ++ (old.find? k).toList)) (keepDeadEntries : Bool) :
    ∃ b, Bucket.merge maxProtocolVersion old new [] keepDeadEntries = .ok b ∧ b.version = max old.version new.version ∧
      ∀ k, b.find? k = (compose (old.find? k) (new.find? k)).filter fun r => keepDeadEntries || !r.isDead := by
  have hcombine : ∀ k, combine (old.find? k) (new.find? k) = some (compose (old.find? k) (new.find? k)) :=
    fun k => combine_eq_compose (h k)
  have hversion : mergeProtocolVersion old new [] = max old.version new.version := rfl
  have hmax : mergeProtocolVersion old new [] ≤ maxProtocolVersion := max_le hold.2 hnew.2
  obtain ⟨b, hb, hbVersion, hbFind⟩ := Bucket.merge_eq hmax (.inr rfl) fun k => ⟨_, hcombine k⟩
  refine ⟨b, hb, ?_, fun k => ?_⟩
  · rw [hbVersion, hversion, if_pos]
    exact (show 11 ≤ FIRST_PROTOCOL_SHADOWS_REMOVED by decide).trans (hold.1.trans (le_max_left _ _))
  · rw [hbFind, hcombine]
    simp [dropped, shadowedOut]

theorem Supported.of_merge {b : Bucket K E} (hold : Supported maxProtocolVersion old)
    (hnew : Supported maxProtocolVersion new) (h : b.version = max old.version new.version) :
    Supported maxProtocolVersion b := by
  unfold Supported
  rw [h]
  exact ⟨hold.1.trans (le_max_left _ _), max_le hold.2 hnew.2⟩

/-- Supported buckets of one version are equal if they say the same of every key. -/
theorem Supported.eq_of_find {b b' : Bucket K E} (hb : Supported maxProtocolVersion b)
    (hversion : b.version = b'.version) (h : ∀ k, b.find? k = b'.find? k) : b = b' := by
  refine Bucket.ext ?_ (entries_eq b.sorted b'.sorted h)
  rw [Bucket.metadata_eq hb.1, Bucket.metadata_eq (hversion ▸ hb.1), hversion]

theorem Bucket.merge_kept (hold : Supported maxProtocolVersion old) (hnew : Supported maxProtocolVersion new)
    (h : ∀ k, Alternates ((new.find? k).toList ++ (old.find? k).toList)) :
    ∃ b, Bucket.merge maxProtocolVersion old new [] true = .ok b ∧ b.version = max old.version new.version ∧
      ∀ k, b.find? k = compose (old.find? k) (new.find? k) := by
  obtain ⟨b, hb, hversion, hfind⟩ := Bucket.merge_compose hold hnew h true
  refine ⟨b, hb, hversion, fun k => ?_⟩
  rw [hfind k]
  cases compose (old.find? k) (new.find? k) <;> rfl

theorem Bucket.merge_last (hold : Supported maxProtocolVersion old) (hnew : Supported maxProtocolVersion new)
    (h : ∀ k, Alternates ((new.find? k).toList ++ (old.find? k).toList)) {b : Bucket K E}
    (hb : Bucket.merge maxProtocolVersion old new [] true = .ok b) :
    ∃ b', Bucket.merge maxProtocolVersion old new [] false = .ok b' ∧ b'.metadata = b.metadata ∧
      b'.entries = b.entries.filter fun e => !e.record.isDead := by
  obtain ⟨b₁, hb₁, hversion, hfind⟩ := Bucket.merge_kept hold hnew h
  obtain ⟨b', hb', hversion', hfind'⟩ := Bucket.merge_compose hold hnew h false
  rw [hb, Except.ok.injEq] at hb₁
  subst hb₁
  refine ⟨b', hb', ?_, entries_eq b'.sorted (b.sorted.filter _) fun k => ?_⟩
  · rw [Bucket.metadata_eq (Supported.of_merge hold hnew hversion).1,
      Bucket.metadata_eq (Supported.of_merge hold hnew hversion').1, hversion, hversion']
  · rw [recordOf_filter b.sorted (fun r => !r.isDead)]
    show b'.find? k = (b.find? k).filter _
    rw [hfind, hfind']
    rfl

end

/-- **Merging composes.** It never throws, what it says of each key is the composition, and deletions
are all that the last level drops; of three buckets any two neighbours may be merged first. -/
theorem Bucket.merge_composes (maxProtocolVersion : Nat) :
    (∀ old new : Bucket K E, Supported maxProtocolVersion old → Supported maxProtocolVersion new →
      (∀ k, Alternates (records [new, old] k)) →
      ∃ b, Bucket.merge maxProtocolVersion old new [] true = .ok b ∧ b.entries.Pairwise (fun x y => x.key < y.key) ∧
        (∀ k, b.find? k = compose (old.find? k) (new.find? k)) ∧
        ∃ b', Bucket.merge maxProtocolVersion old new [] false = .ok b' ∧ b'.metadata = b.metadata ∧
          b'.entries = b.entries.filter fun e => !e.record.isDead) ∧
    (∀ a b c : Bucket K E, Supported maxProtocolVersion a → Supported maxProtocolVersion b → Supported maxProtocolVersion c →
      (∀ k, Alternates (records [c, b, a] k)) →
      ∃ ab bc abc, Bucket.merge maxProtocolVersion a b [] true = .ok ab ∧ Bucket.merge maxProtocolVersion b c [] true = .ok bc ∧
        Bucket.merge maxProtocolVersion ab c [] true = .ok abc ∧ Bucket.merge maxProtocolVersion a bc [] true = .ok abc) := by
  constructor
  · intro old new hold hnew h
    have hpair : ∀ k, Alternates ((new.find? k).toList ++ (old.find? k).toList) := by
      intro k
      have hk := h k
      rwa [records_cons, records_cons, records_nil, List.append_nil] at hk
    obtain ⟨b, hb, -, hfind⟩ := Bucket.merge_kept hold hnew hpair
    exact ⟨b, hb, b.sorted, hfind, Bucket.merge_last hold hnew hpair hb⟩
  · intro a b c ha hb hc h
    have hassoc : ∀ k, _ := fun k => Alternates.compose_assoc (a := a.find? k) (b := b.find? k) (c := c.find? k) (by
      have hk := h k
      rwa [records_cons, records_cons, records_cons, records_nil, List.append_nil, ← List.append_assoc] at hk)
    obtain ⟨ab, hab, habVersion, habFind⟩ := Bucket.merge_kept ha hb fun k => (hassoc k).1
    obtain ⟨bc, hbc, hbcVersion, hbcFind⟩ := Bucket.merge_kept hb hc fun k => (hassoc k).2.1
    have habOk := Supported.of_merge ha hb habVersion
    have hbcOk := Supported.of_merge hb hc hbcVersion
    obtain ⟨left, hleft, hleftVersion, hleftFind⟩ := Bucket.merge_kept habOk hc fun k => by
      rw [habFind k]
      exact (hassoc k).2.2.1
    obtain ⟨right, hright, hrightVersion, hrightFind⟩ := Bucket.merge_kept ha hbcOk fun k => by
      rw [hbcFind k]
      exact (hassoc k).2.2.2.1
    have hsame : left = right := by
      refine (Supported.of_merge habOk hc hleftVersion).eq_of_find ?_ fun k => ?_
      · rw [hleftVersion, hrightVersion, habVersion, hbcVersion, max_assoc]
      · rw [hleftFind, hrightFind, habFind, hbcFind, (hassoc k).2.2.2.2]
    exact ⟨ab, bc, left, hab, hbc, hleft, hsame ▸ hright⟩

def single (r : Record Nat) : Bucket Nat Nat where
  metadata := some 12
  entries := [⟨7, r⟩]
  sorted := List.pairwise_singleton _ _
  legal := fun _ _ _ => by decide

theorem single_find? (r : Record Nat) (k : Nat) : (single r).find? k = if 7 = k then some r else none :=
  recordOf_cons _ _ k

/-- Created, deleted and created again: a creation, whichever two are merged first. -/
theorem Bucket.merge_composes_again :
    ∃ ab bc abc, Bucket.merge 12 (single (.init 1)) (single .dead) [] true = .ok ab ∧
      Bucket.merge 12 (single .dead) (single (.init 2)) [] true = .ok bc ∧
      Bucket.merge 12 ab (single (.init 2)) [] true = .ok abc ∧ Bucket.merge 12 (single (.init 1)) bc [] true = .ok abc := by
  refine (Bucket.merge_composes 12).2 (single (.init 1)) (single .dead) (single (.init 2)) ⟨by decide, by decide⟩
    ⟨by decide, by decide⟩ ⟨by decide, by decide⟩ fun k => ?_
  simp only [records_cons, single_find?, records_nil]
  split <;> simp [Alternates, isInit, isDead]

end Diamnet.Buckets
