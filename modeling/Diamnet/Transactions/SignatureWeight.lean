import Diamnet.Transactions.SignatureChecker

/-! What signatures weigh (`SignatureChecker::checkSignature`).

The check goes through the signers that are the transaction itself, then through the signatures
twice, and stops as soon as the weight is reached. A signer that was counted is taken off the list.
`Counts` says what one of these passes has counted; since weights are not negative, stopping early
makes no difference, and what counts in the end is every signer that is satisfied, once
(`checkSignature_iff`). -/
namespace Diamnet.Transactions
open Ledger List SignatureUtils

namespace SignatureChecker

def weight (signers : List Signer) : Nat := (signers.map fun signer => min signer.weight UINT8_MAX).sum

theorem weight_cons (signer : Signer) (rest : List Signer) :
    weight (signer :: rest) = min signer.weight UINT8_MAX + weight rest := by
  rw [weight, map_cons, sum_cons, weight]

theorem weight_append (signers rest : List Signer) : weight (signers ++ rest) = weight signers + weight rest := by
  rw [weight, map_append, sum_append, weight, weight]

theorem weight_perm {signers signers' : List Signer} (h : signers.Perm signers') : weight signers = weight signers' :=
  (h.map _).sum_eq

theorem weight_filter_or {p q : Signer → Bool} (signers : List Signer) (h : ∀ s, p s = true → q s = true → False) :
    weight (signers.filter fun s => p s || q s) = weight (signers.filter p) + weight (signers.filter q) := by
  induction signers with
  | nil => rfl
  | cons s rest ih =>
    cases hp : p s with
    | true =>
      have hq : q s = false := Bool.eq_false_iff.mpr fun hq => h s hp hq
      simp only [filter_cons, hp, hq, Bool.true_or, if_true, Bool.false_eq_true, if_false, weight_cons, ih]
      omega
    | false =>
      cases hq : q s with
      | true =>
        simp only [filter_cons, hp, hq, Bool.or_true, if_true, Bool.false_eq_true, if_false, weight_cons, ih]
        omega
      | false => simpa only [filter_cons, hp, hq, Bool.or_false, Bool.false_eq_true, if_false] using ih

/-! ### One pass -/

/-- A pass that starts from `totalWeight` has counted these signers, or as many as were needed. -/
structure Counts (neededWeight totalWeight : Int) (counted : List Signer) (enough : Bool) (totalWeight' : Int) : Prop where
  enough_iff : enough = true ↔ counted ≠ [] ∧ neededWeight ≤ totalWeight + weight counted
  total : enough = false → totalWeight' = totalWeight + weight counted

namespace Counts
variable {neededWeight totalWeight totalWeight' : Int} {counted : List Signer} {enough : Bool} {signer : Signer}

theorem nothing : Counts neededWeight totalWeight [] false totalWeight where
  enough_iff := by simp
  total := fun _ => by simp [weight]

theorem perm (h : Counts neededWeight totalWeight counted enough totalWeight') {counted' : List Signer}
    (hperm : counted.Perm counted') : Counts neededWeight totalWeight counted' enough totalWeight' := by
  have hnil : counted ≠ [] ↔ counted' ≠ [] := not_congr ⟨fun h => (h ▸ hperm).symm.eq_nil, fun h => (h ▸ hperm).eq_nil⟩
  refine ⟨?_, ?_⟩
  · rw [← hnil, ← weight_perm hperm]
    exact h.enough_iff
  · rw [← weight_perm hperm]
    exact h.total

theorem stop (hstop : neededWeight ≤ totalWeight + (min signer.weight UINT8_MAX : Nat)) (rest : List Signer)
    (totalWeight' : Int) : Counts neededWeight totalWeight (signer :: rest) true totalWeight' where
  enough_iff := by
    refine iff_of_true rfl ⟨cons_ne_nil _ _, ?_⟩
    rw [weight_cons]
    omega
  total := fun h => nomatch h

theorem next (hnext : ¬neededWeight ≤ totalWeight + (min signer.weight UINT8_MAX : Nat)) {rest : List Signer}
    (h : Counts neededWeight (totalWeight + (min signer.weight UINT8_MAX : Nat)) rest enough totalWeight') :
    Counts neededWeight totalWeight (signer :: rest) enough totalWeight' where
  enough_iff := by
    rw [h.enough_iff, weight_cons]
    constructor
    · intro ⟨_, hle⟩
      exact ⟨cons_ne_nil _ _, by omega⟩
    · intro ⟨_, hle⟩
      refine ⟨?_, by omega⟩
      intro hnil
      rw [hnil] at hle
      have hzero : weight [] = 0 := rfl
      omega
  total := fun hf => by
    rw [h.total hf, weight_cons]
    omega

theorem of_enough (h : Counts neededWeight totalWeight counted true totalWeight') (rest : List Signer) (totalWeight'' : Int) :
    Counts neededWeight totalWeight (counted ++ rest) true totalWeight'' where
  enough_iff := by
    obtain ⟨hne, hle⟩ := h.enough_iff.mp rfl
    refine iff_of_true rfl ⟨fun hnil => hne (append_eq_nil_iff.mp hnil).1, ?_⟩
    rw [weight_append]
    omega
  total := fun h => nomatch h

theorem append (h : Counts neededWeight totalWeight counted false totalWeight') {rest : List Signer} {totalWeight'' : Int}
    (hrest : Counts neededWeight totalWeight' rest enough totalWeight'') :
    Counts neededWeight totalWeight (counted ++ rest) enough totalWeight'' := by
  rw [h.total rfl] at hrest
  refine ⟨?_, ?_⟩
  · rw [hrest.enough_iff, weight_append]
    constructor
    · intro ⟨hne, hle⟩
      exact ⟨fun hnil => hne (append_eq_nil_iff.mp hnil).2, by omega⟩
    · intro ⟨hne, hle⟩
      refine ⟨fun hnil => ?_, by omega⟩
      subst hnil
      rw [append_nil] at hne
      have hzero : weight [] = 0 := rfl
      exact Bool.false_ne_true (h.enough_iff.mpr ⟨hne, by omega⟩)
  · intro hf
    rw [hrest.total hf, weight_append]
    omega

end Counts

section Passes
variable {checker : SignatureChecker} (hversion : 9 < checker.protocolVersion) (neededWeight : Int)
include hversion

theorem weightOf_eq (signer : Signer) : checker.weightOf signer = min signer.weight UINT8_MAX := by
  unfold weightOf
  split
  · omega
  · omega

variable {totalWeight : Int}

theorem addWeight_eq (hnonneg : 0 ≤ totalWeight) (hlt : totalWeight + 255 < 2 ^ 31) (signer : Signer) :
    checker.addWeight totalWeight signer = totalWeight + (min signer.weight UINT8_MAX : Nat) := by
  have hle : min signer.weight UINT8_MAX ≤ 255 := Nat.min_le_right _ _
  rw [addWeight, weightOf_eq hversion]
  refine Int.bmod_eq_of_le ?_ ?_
  · omega
  · omega

theorem countPreAuth_counts (signers : List Signer) (hnonneg : 0 ≤ totalWeight)
    (hlt : totalWeight + 255 * (signers.filter fun s => s.key = .preAuthTx checker.contentsHash).length < 2 ^ 31) :
    Counts neededWeight totalWeight (signers.filter fun s => s.key = .preAuthTx checker.contentsHash)
      (checker.countPreAuth neededWeight signers totalWeight).1 (checker.countPreAuth neededWeight signers totalWeight).2 := by
  induction signers generalizing totalWeight with
  | nil => exact .nothing
  | cons signer rest ih =>
    rw [countPreAuth]
    by_cases hkey : signer.key = .preAuthTx checker.contentsHash
    · have hfilter : ((signer :: rest).filter fun s => s.key = .preAuthTx checker.contentsHash) =
          signer :: rest.filter fun s => s.key = .preAuthTx checker.contentsHash := filter_cons_of_pos (by simpa using hkey)
      rw [hfilter] at hlt ⊢
      rw [length_cons] at hlt
      rw [if_pos hkey, addWeight_eq hversion hnonneg (by omega)]
      dsimp only
      have hle : min signer.weight UINT8_MAX ≤ 255 := Nat.min_le_right _ _
      split
      · next hstop => exact .stop hstop _ _
      · next hnext => exact .next hnext (ih (by omega) (by omega))
    · have hfilter : ((signer :: rest).filter fun s => s.key = .preAuthTx checker.contentsHash) =
          rest.filter fun s => s.key = .preAuthTx checker.contentsHash := filter_cons_of_neg (by simpa using hkey)
      rw [hfilter] at hlt ⊢
      rw [if_neg hkey]
      exact ih hnonneg hlt

/-- The signers that one of the signatures stands for. -/
abbrev matched (verify : DecoratedSignature → Signer → Bool) (signatures : List (DecoratedSignature × Bool))
    (signers : List Signer) : List Signer :=
  signers.filter fun signer => signatures.any fun p => verify p.1 signer

def OneSigner (verify : DecoratedSignature → Signer → Bool) (signatures : List (DecoratedSignature × Bool))
    (signers : List Signer) : Prop :=
  ∀ p ∈ signatures, ∀ s ∈ signers, ∀ s' ∈ signers, verify p.1 s = true → verify p.1 s' = true → s = s'

variable {verify : DecoratedSignature → Signer → Bool} {signers : List Signer} {sig : DecoratedSignature} {used : Bool}
  {rest : List (DecoratedSignature × Bool)}

omit hversion in
theorem OneSigner.sublist (h : OneSigner verify ((sig, used) :: rest) signers) {signers' : List Signer}
    (hsub : signers'.Sublist signers) : OneSigner verify rest signers' :=
  fun p hp s hs s' hs' => h p (.tail _ hp) s (hsub.subset hs) s' (hsub.subset hs')

omit hversion in
theorem matched_cons (hnodup : signers.Nodup) (hone : OneSigner verify ((sig, used) :: rest) signers) {signer : Signer}
    (hfind : signers.find? (verify sig) = some signer) :
    (signer :: matched verify rest (signers.eraseP (verify sig))).Perm (matched verify ((sig, used) :: rest) signers) := by
  have hone := hone (sig, used) (.head _)
  have hverify := find?_some hfind
  have hmem := mem_of_find?_eq_some hfind
  obtain ⟨found, before, after, -, hfound, hsplit, herase⟩ := exists_of_eraseP hmem hverify
  have hsigner : found = signer := hone found (hsplit ▸ mem_append_right _ (.head _)) signer hmem hfound hverify
  subst hsigner
  -- the signature stands for none of the others
  have hothers : ∀ s ∈ before ++ after, (((sig, used) :: rest).any fun p => verify p.1 s) = rest.any fun p => verify p.1 s := by
    intro s hs
    have hperm : signers.Perm (found :: (before ++ after)) := hsplit ▸ perm_middle
    have hnot : verify sig s = false := by
      rw [Bool.eq_false_iff]
      intro hs'
      have hsame := hone s (hperm.mem_iff.mpr (.tail _ hs)) found hmem hs' hverify
      exact (nodup_cons.mp (hperm.nodup_iff.mp hnodup)).1 (hsame ▸ hs)
    rw [any_cons, hnot, Bool.false_or]
  rw [herase, hsplit]
  have hmiddle : (before ++ found :: after).Perm (found :: (before ++ after)) := perm_middle
  refine Perm.trans ?_ (hmiddle.symm.filter _)
  rw [filter_cons_of_pos (by rw [any_cons, hverify, Bool.true_or])]
  refine Perm.cons _ (Perm.of_eq ?_)
  exact filter_congr fun s hs => (hothers s hs).symm

omit hversion in
theorem matched_cons_none (hfind : signers.find? (verify sig) = none) :
    matched verify ((sig, used) :: rest) signers = matched verify rest signers := by
  refine filter_congr fun s hs => ?_
  have hnot : verify sig s = false := by simpa using find?_eq_none.mp hfind s hs
  rw [any_cons, hnot, Bool.false_or]

omit hversion in
theorem weight_matched_le (signatures : List (DecoratedSignature × Bool)) (hnodup : signers.Nodup)
    (hone : OneSigner verify signatures signers) :
    weight (matched verify signatures signers) ≤ 255 * signatures.length := by
  induction signatures generalizing signers with
  | nil =>
    have hnone : matched verify [] signers = [] := filter_eq_nil_iff.mpr fun s _ => by simp
    rw [hnone]
    exact Nat.zero_le _
  | cons p rest ih =>
    obtain ⟨sig, used⟩ := p
    rw [length_cons]
    cases hfind : signers.find? (verify sig) with
    | some signer =>
      have hle : min signer.weight UINT8_MAX ≤ 255 := Nat.min_le_right _ _
      have hsub : (signers.eraseP (verify sig)).Sublist signers := eraseP_sublist
      have hrest := ih (hnodup.sublist hsub) (hone.sublist hsub)
      rw [← weight_perm (matched_cons hnodup hone hfind), weight_cons]
      omega
    | none =>
      have hrest := ih hnodup (hone.sublist (.refl _))
      rw [matched_cons_none hfind]
      omega

theorem verifyAll_counts (signatures : List (DecoratedSignature × Bool)) (hnodup : signers.Nodup)
    (hone : OneSigner verify signatures signers)
    (hnonneg : 0 ≤ totalWeight) (hlt : totalWeight + 255 * signatures.length < 2 ^ 31) :
    Counts neededWeight totalWeight (matched verify signatures signers)
      (checker.verifyAll verify neededWeight signatures signers totalWeight).1
      (checker.verifyAll verify neededWeight signatures signers totalWeight).2.1 ∧
    (checker.verifyAll verify neededWeight signatures signers totalWeight).2.2.map Prod.fst = signatures.map Prod.fst := by
  induction signatures generalizing signers totalWeight with
  | nil =>
    refine ⟨?_, rfl⟩
    have hnone : matched verify [] signers = [] := filter_eq_nil_iff.mpr fun s _ => by simp
    rw [hnone]
    exact .nothing
  | cons p rest ih =>
    obtain ⟨sig, used⟩ := p
    rw [length_cons] at hlt
    rw [verifyAll]
    cases hfind : signers.find? (verify sig) with
    | some signer =>
      have hperm := matched_cons hnodup hone hfind
      have hle : min signer.weight UINT8_MAX ≤ 255 := Nat.min_le_right _ _
      have hnext : 0 ≤ totalWeight + (min signer.weight UINT8_MAX : Nat) := by omega
      have hsub : (signers.eraseP (verify sig)).Sublist signers := eraseP_sublist
      obtain ⟨hcounts, hsigs⟩ := ih (hnodup.sublist hsub) (hone.sublist hsub) hnext (by omega)
      dsimp only
      rw [addWeight_eq hversion hnonneg (by omega)]
      split
      · next hstop => exact ⟨(Counts.stop hstop _ _).perm hperm, rfl⟩
      · next hnext => exact ⟨(Counts.next hnext hcounts).perm hperm, by rw [map_cons, hsigs, map_cons]⟩
    | none =>
      obtain ⟨hcounts, hsigs⟩ := ih hnodup (hone.sublist (.refl _)) hnonneg (by omega)
      rw [matched_cons_none hfind]
      exact ⟨hcounts, by dsimp only; rw [map_cons, hsigs, map_cons]⟩

end Passes

/-! ### The check -/

/-- The signer has signed: it is the transaction itself, or some signature stands for it. -/
def satisfied (crypto : Crypto) (checker : SignatureChecker) (signer : Signer) : Bool :=
  match signer.key with
  | .preAuthTx hash => hash = checker.contentsHash
  | .hashX hash => checker.signatures.any fun p => verifyHashX crypto p.1 hash
  | .ed25519 key => checker.signatures.any fun p => verify crypto p.1 key checker.contentsHash

section Check
variable {crypto : Crypto} {checker : SignatureChecker} {signers : List Signer}

theorem satisfied_eq (crypto : Crypto) (checker : SignatureChecker) (signer : Signer) :
    satisfied crypto checker signer = (decide (signer.key = .preAuthTx checker.contentsHash) ||
      ((checker.signatures.any fun p => verifiesHashX crypto p.1 signer) ||
        checker.signatures.any fun p => checker.verifiesEd25519 crypto p.1 signer)) := by
  unfold satisfied verifiesHashX verifiesEd25519
  cases signer.key <;> simp

abbrev byKind (crypto : Crypto) (checker : SignatureChecker) (signers : List Signer) : List Signer :=
  (signers.filter fun s => s.key = .preAuthTx checker.contentsHash) ++
    (matched (verifiesHashX crypto) checker.signatures signers ++
      matched (checker.verifiesEd25519 crypto) checker.signatures signers)

theorem weight_byKind (crypto : Crypto) (checker : SignatureChecker) (signers : List Signer) :
    weight (byKind crypto checker signers) = weight (signers.filter (satisfied crypto checker)) := by
  have hsatisfied : signers.filter (satisfied crypto checker) = signers.filter fun s =>
      decide (s.key = .preAuthTx checker.contentsHash) ||
        ((checker.signatures.any fun p => verifiesHashX crypto p.1 s) ||
          checker.signatures.any fun p => checker.verifiesEd25519 crypto p.1 s) :=
    filter_congr fun s _ => satisfied_eq crypto checker s
  rw [hsatisfied, weight_filter_or signers, weight_filter_or signers, weight_append, weight_append]
  · intro s hx hed
    unfold verifiesHashX at hx
    unfold verifiesEd25519 at hed
    cases hkey : s.key <;> simp [hkey] at hx hed
  · intro s hpre hsig
    have hpre : s.key = .preAuthTx checker.contentsHash := of_decide_eq_true hpre
    simp [verifiesHashX, verifiesEd25519, hpre] at hsig

theorem byKind_ne_nil_iff (crypto : Crypto) (checker : SignatureChecker) (signers : List Signer) :
    byKind crypto checker signers ≠ [] ↔ ∃ signer ∈ signers, satisfied crypto checker signer = true := by
  have hmem : ∀ s, s ∈ byKind crypto checker signers ↔ s ∈ signers ∧ satisfied crypto checker s = true := by
    intro s
    rw [satisfied_eq, mem_append, mem_append, mem_filter, mem_filter, mem_filter,
      Bool.or_eq_true, Bool.or_eq_true, ← and_or_left, ← and_or_left]
  rw [ne_eq, eq_nil_iff_forall_not_mem]
  push Not
  exact exists_congr hmem

theorem length_filter_key_le (hdistinct : (signers.map (·.key)).Nodup) (key : SignerKey) :
    (signers.filter fun s => s.key = key).length ≤ 1 := by
  have hcount := nodup_iff_count_le_one.mp hdistinct key
  rw [count, countP_map, countP_eq_length_filter] at hcount
  refine le_of_eq_of_le (congrArg length (filter_congr fun s _ => ?_)) hcount
  rw [Function.comp_apply, Bool.eq_iff_iff, decide_eq_true_iff, beq_iff_eq]

theorem weight_le (signers : List Signer) : weight signers ≤ 255 * signers.length := by
  induction signers with
  | nil => exact Nat.zero_le _
  | cons s rest ih =>
    have hle : min s.weight UINT8_MAX ≤ 255 := Nat.min_le_right _ _
    rw [weight_cons, length_cons]
    omega

theorem matched_congr {verify : DecoratedSignature → Signer → Bool} {signatures signatures' : List (DecoratedSignature × Bool)}
    (h : signatures.map Prod.fst = signatures'.map Prod.fst) (signers : List Signer) :
    matched verify signatures signers = matched verify signatures' signers := by
  refine filter_congr fun s _ => ?_
  have hany (l : List (DecoratedSignature × Bool)) :
      (l.any fun p => verify p.1 s) = (l.map Prod.fst).any fun sig => verify sig s := by
    rw [any_map]
    rfl
  rw [hany, hany, h]

theorem oneSigner_hashX (hdistinct : (signers.map (·.key)).Nodup) :
    OneSigner (verifiesHashX crypto) checker.signatures signers := by
  intro p _ s hs s' hs' hv hv'
  refine inj_on_of_nodup_map hdistinct hs hs' ?_
  unfold verifiesHashX verifyHashX at hv hv'
  cases hkey : s.key <;> cases hkey' : s'.key <;> simp_all

theorem oneSigner_ed25519 (hdistinct : (signers.map (·.key)).Nodup)
    (hone : ∀ p ∈ checker.signatures, ∀ key key', verify crypto p.1 key checker.contentsHash = true →
      verify crypto p.1 key' checker.contentsHash = true → key = key') :
    OneSigner (checker.verifiesEd25519 crypto) checker.signatures signers := by
  intro p hp s hs s' hs' hv hv'
  refine inj_on_of_nodup_map hdistinct hs hs' ?_
  unfold verifiesEd25519 at hv hv'
  cases hkey : s.key with
  | ed25519 key =>
    cases hkey' : s'.key with
    | ed25519 key' =>
      rw [hkey] at hv
      rw [hkey'] at hv'
      rw [hone p hp key key' hv hv']
    | preAuthTx _ => simp [hkey'] at hv'
    | hashX _ => simp [hkey'] at hv'
  | preAuthTx _ => simp [hkey] at hv
  | hashX _ => simp [hkey] at hv

theorem checkSignature_counts (neededWeight : Int) (hversion : 10 ≤ checker.protocolVersion)
    (hsize : checker.signatures.length ≤ 20) (hdistinct : (signers.map (·.key)).Nodup)
    (hone : ∀ p ∈ checker.signatures, ∀ key key', verify crypto p.1 key checker.contentsHash = true →
      verify crypto p.1 key' checker.contentsHash = true → key = key') :
    ∃ totalWeight, Counts neededWeight 0 (byKind crypto checker signers)
      (checkSignature crypto checker signers neededWeight).1 totalWeight := by
  have hnodup : signers.Nodup := Nodup.of_map _ hdistinct
  have hone_x : OneSigner (verifiesHashX crypto) checker.signatures signers := oneSigner_hashX hdistinct
  have hpre_length := length_filter_key_le hdistinct (.preAuthTx checker.contentsHash)
  have hpre_weight := weight_le (signers.filter fun s => s.key = .preAuthTx checker.contentsHash)
  have hx_weight := weight_matched_le checker.signatures hnodup hone_x
  have hpre := countPreAuth_counts hversion neededWeight signers (le_refl 0) (by omega)
  unfold checkSignature
  rw [if_neg (by omega)]
  generalize checker.countPreAuth neededWeight signers 0 = r at hpre ⊢
  obtain ⟨enough, preWeight⟩ := r
  dsimp only at hpre ⊢
  cases enough with
  | true => exact ⟨0, hpre.of_enough _ _⟩
  | false =>
    have hpre_total := hpre.total rfl
    have hpre_nonneg : 0 ≤ preWeight := by omega
    obtain ⟨hx, hx_sigs⟩ := verifyAll_counts hversion neededWeight checker.signatures hnodup hone_x hpre_nonneg (by omega)
    generalize checker.verifyAll (verifiesHashX crypto) neededWeight checker.signatures signers preWeight = r at hx hx_sigs ⊢
    obtain ⟨verified, xWeight, signatures⟩ := r
    dsimp only at hx hx_sigs ⊢
    cases verified with
    | true => exact ⟨0, hpre.append (hx.of_enough _ 0)⟩
    | false =>
      have hx_total := hx.total rfl
      have hlength : signatures.length = checker.signatures.length := by
        have := congrArg length hx_sigs
        rwa [length_map, length_map] at this
      have hone_ed : OneSigner (checker.verifiesEd25519 crypto) signatures signers := by
        intro p hp
        have hp' : p.1 ∈ checker.signatures.map Prod.fst := hx_sigs ▸ mem_map_of_mem hp
        obtain ⟨p', hp', heq⟩ := mem_map.mp hp'
        rw [← heq]
        exact oneSigner_ed25519 hdistinct hone p' hp'
      have hx_nonneg : 0 ≤ xWeight := by omega
      obtain ⟨hed, -⟩ := verifyAll_counts hversion neededWeight signatures hnodup hone_ed hx_nonneg (by omega)
      rw [matched_congr hx_sigs] at hed
      exact ⟨_, hpre.append (hx.append hed)⟩

theorem checkSignature_eq_true_iff (neededWeight : Int) (hversion : 10 ≤ checker.protocolVersion)
    (hsize : checker.signatures.length ≤ 20) (hdistinct : (signers.map (·.key)).Nodup)
    (hone : ∀ p ∈ checker.signatures, ∀ key key', verify crypto p.1 key checker.contentsHash = true →
      verify crypto p.1 key' checker.contentsHash = true → key = key') :
    (checkSignature crypto checker signers neededWeight).1 = true ↔
      (∃ signer ∈ signers, satisfied crypto checker signer = true) ∧
        neededWeight ≤ weight (signers.filter (satisfied crypto checker)) := by
  obtain ⟨totalWeight, hcounts⟩ := checkSignature_counts neededWeight hversion hsize hdistinct hone
  rw [hcounts.enough_iff, byKind_ne_nil_iff, weight_byKind, Int.zero_add]

/-- **Every satisfied signer counts once**, in whatever order signers and signatures come and however
often a signature is repeated. -/
theorem checkSignature_iff (crypto : Crypto) (checker : SignatureChecker) (signers : List Signer) (neededWeight : Int)
    (hversion : 10 ≤ checker.protocolVersion) (hsize : checker.signatures.length ≤ 20)
    (hdistinct : (signers.map (·.key)).Nodup)
    (hone : ∀ p ∈ checker.signatures, ∀ key key', verify crypto p.1 key checker.contentsHash = true →
      verify crypto p.1 key' checker.contentsHash = true → key = key') :
    ((checkSignature crypto checker signers neededWeight).1 = true ↔
      (∃ signer ∈ signers, satisfied crypto checker signer = true) ∧
        neededWeight ≤ weight (signers.filter (satisfied crypto checker))) ∧
    ∀ signers' signatures', signers.Perm signers' → signatures'.length ≤ 20 →
      (∀ sig, sig ∈ checker.signatures.map Prod.fst ↔ sig ∈ signatures'.map Prod.fst) →
      (checkSignature crypto { checker with signatures := signatures' } signers' neededWeight).1 =
        (checkSignature crypto checker signers neededWeight).1 := by
  refine ⟨checkSignature_eq_true_iff neededWeight hversion hsize hdistinct hone, ?_⟩
  intro signers' signatures' hperm hsize' hsigs
  -- the same signatures are there, so the same signers are satisfied
  have hany (p : DecoratedSignature → Bool) :
      (checker.signatures.any fun q => p q.1) = signatures'.any fun q => p q.1 := by
    rw [Bool.eq_iff_iff, any_eq_true, any_eq_true]
    constructor
    · intro ⟨q, hq, hp⟩
      obtain ⟨q', hq', heq⟩ := mem_map.mp ((hsigs q.1).mp (mem_map_of_mem hq))
      exact ⟨q', hq', heq ▸ hp⟩
    · intro ⟨q, hq, hp⟩
      obtain ⟨q', hq', heq⟩ := mem_map.mp ((hsigs q.1).mpr (mem_map_of_mem hq))
      exact ⟨q', hq', heq ▸ hp⟩
  have hsatisfied : satisfied crypto { checker with signatures := signatures' } = satisfied crypto checker := by
    funext signer
    unfold satisfied
    cases signer.key with
    | preAuthTx hash => rfl
    | hashX hash => exact (hany fun sig => verifyHashX crypto sig hash).symm
    | ed25519 key => exact (hany fun sig => verify crypto sig key checker.contentsHash).symm
  have hone' : ∀ p ∈ signatures', ∀ key key', verify crypto p.1 key checker.contentsHash = true →
      verify crypto p.1 key' checker.contentsHash = true → key = key' := by
    intro p hp
    obtain ⟨q, hq, heq⟩ := mem_map.mp ((hsigs p.1).mpr (mem_map_of_mem hp))
    rw [← heq]
    exact hone q hq
  have hdistinct' : (signers'.map (·.key)).Nodup := (hperm.map _).nodup_iff.mp hdistinct
  have hversion' : 10 ≤ ({ checker with signatures := signatures' } : SignatureChecker).protocolVersion := hversion
  rw [Bool.eq_iff_iff, checkSignature_eq_true_iff neededWeight hversion hsize hdistinct hone,
    checkSignature_eq_true_iff neededWeight hversion' hsize' hdistinct' hone', hsatisfied, weight_perm (hperm.filter _)]
  exact and_congr_left fun _ => exists_congr fun s => and_congr_left fun _ => hperm.symm.mem_iff

/-- Signatures that verify for the key they repeat. -/
def plainCrypto : Crypto where
  sha256 := fun _ => 0
  verifySig := fun key signature _ => key < 256 && signature = [UInt8.ofNat key]

/-- One signer is the transaction and one has signed twice. -/
theorem checkSignature_iff_twice :
    let checker := new 13 77 [⟨5, [5]⟩, ⟨5, [5]⟩]
    let signers : List Signer := [⟨.ed25519 6, 10⟩, ⟨.ed25519 5, 300⟩, ⟨.preAuthTx 77, 1⟩]
    (checkSignature plainCrypto checker signers 256).1 = true ∧ (checkSignature plainCrypto checker signers 257).1 = false := by
  intro checker signers
  have hone : ∀ p ∈ checker.signatures, ∀ key key', verify plainCrypto p.1 key checker.contentsHash = true →
      verify plainCrypto p.1 key' checker.contentsHash = true → key = key' := by
    have hfive : ∀ p ∈ checker.signatures, p.1 = ⟨5, [5]⟩ := by decide
    have hkey : ∀ key, verify plainCrypto ⟨5, [5]⟩ key checker.contentsHash = true → key = 5 := by
      intro key h
      simp only [verify, doesHintMatch, plainCrypto, Bool.and_eq_true, decide_eq_true_eq] at h
      obtain ⟨hmod, hlt, -⟩ := h
      rw [Nat.mod_eq_of_lt (lt_trans hlt (by decide))] at hmod
      exact hmod
    intro p hp key key' h h'
    rw [hfive p hp] at h h'
    rw [hkey key h, hkey key' h']
  constructor
  · exact (checkSignature_iff plainCrypto checker signers 256 (by decide) (by decide) (by decide) hone).1.mpr (by decide)
  · decide

end Check

end SignatureChecker
end Diamnet.Transactions
