import Diamnet.Util.Table

/-! The cache that evicts the older of two random entries (`RandomEvictionCache.h`).

A vector of pointers to the nodes of the map is kept only to pick from it. Every call keeps it in step with
the map (`Linked`), so no pointer dangles; what a call does to the values is `Call.after`, up to an eviction.
The counters are left out. -/
namespace Diamnet.Support

structure CacheValue (V : Type) where
  mLastAccess : UInt64
  mValue : V

/-- A node stays where it is and keeps its key, so a pointer to it is that key. -/
structure RandomEvictionCache (K V : Type) where
  mMaxSize : Nat
  mGeneration : UInt64 := 0
  mValueMap : Table K (CacheValue V) := ∅
  mValuePtrs : List K := []

def rand_uniform (random lo hi : Nat) : Nat := lo + random % (hi - lo + 1)

namespace RandomEvictionCache

variable {K V : Type} [DecidableEq K] (c : RandomEvictionCache K V)

/-- The entry behind the pointer at a position, unless there is none or it dangles. -/
def entryAt (i : Nat) : Option (CacheValue V) := c.mValuePtrs[i]? >>= c.mValueMap.lookup

/-- The entry is erased, and its pointer swapped with the last one, which is popped. -/
def eraseAt (i : Nat) : Option (RandomEvictionCache K V) := do
  let victim ← c.mValuePtrs[i]?
  let back ← c.mValuePtrs.getLast?
  return { c with mValueMap := c.mValueMap.erase victim, mValuePtrs := (c.mValuePtrs.set i back).dropLast }

def evictOne (random₁ random₂ : Nat) : Option (RandomEvictionCache K V) := do
  let sz := c.mValuePtrs.length
  if sz = 0 then return c
  let i₁ := rand_uniform random₁ 0 (sz - 1)
  let i₂ := rand_uniform random₂ 0 (sz - 1)
  let vp1 ← c.entryAt i₁
  let vp2 ← c.entryAt i₂
  c.eraseAt (if vp1.mLastAccess < vp2.mLastAccess then i₁ else i₂)

/-- The entry of a key is written, with the next generation. -/
def write (k : K) (v : V) : RandomEvictionCache K V :=
  { c with mGeneration := c.mGeneration + 1, mValueMap := c.mValueMap.insert k ⟨c.mGeneration + 1, v⟩ }

def put (k : K) (v : V) (random₁ random₂ : Nat) : Option (RandomEvictionCache K V) :=
  if k ∈ c.mValueMap then some (c.write k v)
  else
    let inserted := { c.write k v with mValuePtrs := c.mValuePtrs ++ [k] }
    if inserted.mValuePtrs.length > c.mMaxSize then inserted.evictOne random₁ random₂ else some inserted

def clear : RandomEvictionCache K V := { c with mValuePtrs := [], mValueMap := ∅ }

/-- Both loops of `erase_if`, with `n` pointers from position `i` on: an erased one leaves another at its
position, unless it was the last. -/
def eraseFrom (f : V → Bool) : Nat → Nat → RandomEvictionCache K V → Option (RandomEvictionCache K V)
  | 0, _, c => some c
  | n + 1, i, c => do
    let vp ← c.entryAt i
    if f vp.mValue then eraseFrom f n i (← c.eraseAt i) else eraseFrom f n (i + 1) c

def erase_if (f : V → Bool) : Option (RandomEvictionCache K V) := eraseFrom f c.mValuePtrs.length 0 c

def get (k : K) : Except String (V × RandomEvictionCache K V) :=
  match c.mValueMap.lookup k with
  | some cacheVal => .ok (cacheVal.mValue, c.write k cacheVal.mValue)
  | none => .error "There is no such key in cache"

/-! ### Runs -/

inductive Call (K V : Type) where
  | put (k : K) (v : V) (random₁ random₂ : Nat)
  | get (k : K)
  | exists' (k : K)
  | erase_if (f : V → Bool)
  | clear

def call : Call K V → Option (RandomEvictionCache K V)
  | .put k v random₁ random₂ => c.put k v random₁ random₂
  | .get k => some ((c.get k).toOption.elim c (·.2))
  | .exists' _ => some c
  | .erase_if f => c.erase_if f
  | .clear => some c.clear

def run (maxSize : Nat) : List (Call K V) → Option (RandomEvictionCache K V)
  | [] => some { mMaxSize := maxSize }
  | last :: calls => (run maxSize calls).bind (·.call last)

def latest (k : K) : List (Call K V) → Option V
  | [] => none
  | .put k' v _ _ :: calls => if k = k' then some v else latest k calls
  | _ :: calls => latest k calls

def valueOf (k : K) : Option V := (c.mValueMap.lookup k).map (·.mValue)

/-- What a call makes of the values, evictions apart. -/
def Call.after (values : K → Option V) : Call K V → K → Option V
  | .put k v _ _ => Function.update values k (some v)
  | .get _ | .exists' _ => values
  | .erase_if f => fun k => (values k).filter (!f ·)
  | .clear => fun _ => none

def Call.Overflows : Call K V → Prop
  | .put k _ _ _ => k ∉ c.mValueMap ∧ c.mMaxSize ≤ c.mValueMap.keys.length
  | _ => False

/-- The call has its effect, and evicts one entry exactly if it inserts a new one at full size. -/
def Effect (last : Call K V) (c' : RandomEvictionCache K V) : Prop :=
  ¬last.Overflows c ∧ c'.valueOf = last.after c.valueOf ∨
    last.Overflows c ∧ ∃ victim, last.after c.valueOf victim ≠ none ∧
      c'.valueOf = Function.update (last.after c.valueOf) victim none

/-! ### The pointers and the map -/

/-- The vector points at each node once, and at nothing else. -/
def Linked : Prop := c.mValuePtrs.Perm c.mValueMap.keys

variable {c} {k : K} {i : Nat}

theorem mem_iff : k ∈ c.mValueMap.keys ↔ ∃ v, c.valueOf k = some v := by
  rw [← AList.mem_keys, ← AList.lookup_isSome, ← Option.isSome_map (f := (·.mValue)), Option.isSome_iff_exists]
  rfl

omit [DecidableEq K] in
theorem swap_pop {l : List K} {back : K} (hi : l[i]? = some k) (hback : l.getLast? = some back) :
    l.Perm (k :: (l.set i back).dropLast) ∧ (l.set i back).dropLast.take i = l.take i := by
  obtain ⟨l, rfl⟩ := List.getLast?_eq_some_iff.mp hback
  by_cases h : i < l.length
  · rw [List.getElem?_append_left h] at hi
    obtain ⟨_, rfl⟩ := List.getElem?_eq_some_iff.mp hi
    rw [List.set_append_left _ _ h, List.dropLast_concat]
    constructor
    · calc (l ++ [back]).Perm (back :: l) := List.perm_append_singleton back l
        _ |>.Perm (back :: l[i] :: l.eraseIdx i) := ((List.getElem_cons_eraseIdx_perm h).symm.cons back)
        _ |>.Perm (l[i] :: back :: l.eraseIdx i) := .swap ..
        _ |>.Perm (l[i] :: l.set i back) := (List.set_perm_cons_eraseIdx h back).symm.cons _
    · rw [List.take_set_of_le le_rfl, List.take_append_of_le_length h.le]
  · have hle := (List.getElem?_eq_some_iff.mp hi).1
    rw [List.length_append, List.length_singleton] at hle
    obtain rfl : i = l.length := by omega
    rw [List.getElem?_concat_length, Option.some.injEq] at hi
    simp [hi, List.perm_append_singleton]

theorem valueOf_write (k : K) (v : V) : (c.write k v).valueOf = Function.update c.valueOf k (some v) := by
  funext k'
  by_cases hk : k' = k
  · subst hk
    simp [valueOf, write]
  · simp [valueOf, write, hk]

theorem Linked.write (h : c.Linked) (hk : k ∈ c.mValueMap.keys) (v : V) : (c.write k v).Linked := by
  refine h.trans ?_
  show c.mValueMap.keys.Perm (c.mValueMap.insert k _).keys
  rw [AList.keys_insert]
  exact List.perm_cons_erase hk

theorem Linked.entryAt (h : c.Linked) (hi : c.mValuePtrs[i]? = some k) :
    ∃ value, c.valueOf k = some value.mValue ∧ c.entryAt i = some value := by
  have hmem := h.mem_iff.mp (List.mem_of_getElem? hi)
  obtain ⟨value, hvalue⟩ := Option.isSome_iff_exists.mp (AList.lookup_isSome.mpr (AList.mem_keys.mpr hmem))
  exact ⟨value, by rw [valueOf, hvalue, Option.map_some], by simp [RandomEvictionCache.entryAt, hi, hvalue]⟩

theorem Linked.eraseAt (h : c.Linked) (hi : c.mValuePtrs[i]? = some k) :
    ∃ c', c.eraseAt i = some c' ∧ c'.Linked ∧ c'.mMaxSize = c.mMaxSize ∧
      c'.valueOf = Function.update c.valueOf k none ∧ c'.mValuePtrs.length + 1 = c.mValuePtrs.length ∧
      c'.mValuePtrs.take i = c.mValuePtrs.take i := by
  have hback := List.getLast?_eq_some_getLast (List.ne_nil_of_mem (List.mem_of_getElem? hi))
  obtain ⟨hperm, htake⟩ := swap_pop hi hback
  simp only [RandomEvictionCache.eraseAt, hi, hback, Option.bind_eq_bind, Option.bind_some]
  refine ⟨_, rfl, ?_, rfl, ?_, hperm.length_eq.symm, htake⟩
  · rw [Linked, AList.keys_erase]
    simpa using (hperm.symm.trans h).erase k
  · funext k'
    by_cases hk : k' = k
    · subst hk
      simp [valueOf]
    · simp [valueOf, hk]

theorem Linked.evictOne (h : c.Linked) (hpos : 0 < c.mValuePtrs.length) (random₁ random₂ : Nat) :
    ∃ c' victim, c.evictOne random₁ random₂ = some c' ∧ c'.Linked ∧ c.valueOf victim ≠ none ∧
      c'.mMaxSize = c.mMaxSize ∧ c'.mValuePtrs.length + 1 = c.mValuePtrs.length ∧
      c'.valueOf = Function.update c.valueOf victim none := by
  have hpick (random : Nat) : rand_uniform random 0 (c.mValuePtrs.length - 1) < c.mValuePtrs.length := by
    have := Nat.mod_lt random (show 0 < c.mValuePtrs.length - 1 - 0 + 1 by omega)
    unfold rand_uniform
    omega
  obtain ⟨value₁, -, hentry₁⟩ := h.entryAt (List.getElem?_eq_getElem (hpick random₁))
  obtain ⟨value₂, -, hentry₂⟩ := h.entryAt (List.getElem?_eq_getElem (hpick random₂))
  have hpicked := ite_prop_iff_and.mpr
    ⟨fun _ : value₁.mLastAccess < value₂.mLastAccess => hpick random₁, fun _ => hpick random₂⟩
  rw [← apply_ite (· < c.mValuePtrs.length)] at hpicked
  have hvictim := List.getElem?_eq_getElem hpicked
  obtain ⟨c', herase, hlinked, hmax, hvalue, hlength, -⟩ := h.eraseAt hvictim
  obtain ⟨v, hv⟩ := mem_iff.mp (h.mem_iff.mp (List.mem_of_getElem? hvictim))
  refine ⟨c', _, ?_, hlinked, by rw [hv]; simp, hmax, hlength, hvalue⟩
  have hne := List.ne_nil_of_length_pos hpos
  simp [RandomEvictionCache.evictOne, hne, hentry₁, hentry₂, herase]

def Good (c : RandomEvictionCache K V) (maxSize : Nat) : Prop :=
  c.Linked ∧ c.mMaxSize = maxSize ∧ c.mValuePtrs.length ≤ maxSize

theorem Good.put {maxSize : Nat} (h : c.Good maxSize) (v : V) (random₁ random₂ : Nat) :
    ∃ c', c.put k v random₁ random₂ = some c' ∧ c'.Good maxSize ∧ Effect c (.put k v random₁ random₂) c' := by
  obtain ⟨h, rfl, hsize⟩ := h
  simp only [RandomEvictionCache.put, Effect, Call.Overflows, Call.after, ← valueOf_write, ← h.length_eq]
  by_cases hk : k ∈ c.mValueMap
  · rw [if_pos hk]
    exact ⟨_, rfl, ⟨h.write (AList.mem_keys.mp hk) v, rfl, hsize⟩, .inl ⟨fun hfull => hfull.1 hk, rfl⟩⟩
  · have hlinked : (c.mValuePtrs ++ [k]).Perm (c.write k v).mValueMap.keys := by
      rw [RandomEvictionCache.write, AList.keys_insert, List.erase_of_not_mem (mt AList.mem_keys.mpr hk)]
      exact (List.perm_append_singleton k _).trans (h.cons k)
    rw [if_neg hk, List.length_append, List.length_singleton]
    by_cases hfull : c.mValuePtrs.length + 1 > c.mMaxSize
    · obtain ⟨c', victim, hevict, hlinked', hvictim, hmax, hlength, hvalue⟩ :=
        Linked.evictOne (c := { c.write k v with mValuePtrs := c.mValuePtrs ++ [k] }) hlinked (by simp) random₁ random₂
      simp only [List.length_append, List.length_singleton] at hlength
      exact ⟨c', by rw [if_pos hfull, hevict], ⟨hlinked', hmax, by omega⟩, .inr ⟨⟨hk, by omega⟩, victim, hvictim, hvalue⟩⟩
    · exact ⟨_, if_neg hfull, ⟨hlinked, rfl, by simp; omega⟩, .inl ⟨fun hover => by omega, rfl⟩⟩

theorem Linked.eraseFrom (f : V → Bool) (n : Nat) (h : c.Linked) (hi : i + n = c.mValuePtrs.length)
    (hkept : ∀ k ∈ c.mValuePtrs.take i, ∀ v, c.valueOf k = some v → f v = false) :
    ∃ c', c.eraseFrom f n i = some c' ∧ c'.Linked ∧ c'.mMaxSize = c.mMaxSize ∧
      c'.mValuePtrs.length ≤ c.mValuePtrs.length ∧ ∀ k, c'.valueOf k = (c.valueOf k).filter (!f ·) := by
  induction n generalizing c i with
  | zero =>
    refine ⟨c, rfl, h, rfl, le_rfl, ?_⟩
    intro k
    cases hk : c.valueOf k with
    | none => rfl
    | some v =>
      have hmem := h.mem_iff.mpr (mem_iff.mpr ⟨v, hk⟩)
      rw [Option.filter_some, hkept k (by rwa [List.take_of_length_le (by omega)]) v hk]
      rfl
  | succ n ih =>
    have hget := List.getElem?_eq_getElem (show i < c.mValuePtrs.length by omega)
    obtain ⟨value, hvalue, hentry⟩ := h.entryAt hget
    obtain ⟨c₁, herase, hlinked, hmax, herased, hlength, htake⟩ := h.eraseAt hget
    rw [RandomEvictionCache.eraseFrom, hentry]
    cases hf : f value.mValue with
    | true =>
      obtain ⟨c', hrun, hlinked', hmax', hle, hfiltered⟩ := ih (i := i) hlinked (by omega) (by
        intro k hk v hv
        rw [herased, Function.update_apply] at hv
        split at hv
        · cases hv
        · exact hkept k (htake ▸ hk) v hv)
      refine ⟨c', by simp [hf, herase, hrun], hlinked', hmax'.trans hmax, by omega, ?_⟩
      intro k
      rw [hfiltered, herased, Function.update_apply]
      split
      · next hk => simp [hk, hvalue, hf, Option.filter_some]
      · rfl
    | false =>
      obtain ⟨c', hrun, hrest⟩ := ih (i := i + 1) h (by omega) (by
        intro k hk v hv
        rw [List.take_add_one, hget, Option.toList_some, List.mem_append, List.mem_singleton] at hk
        rcases hk with hk | rfl
        · exact hkept k hk v hv
        · rw [hvalue] at hv
          cases hv
          exact hf)
      exact ⟨c', by simp [hf, hrun], hrest⟩

theorem Good.call {maxSize : Nat} (h : c.Good maxSize) (last : Call K V) :
    ∃ c', c.call last = some c' ∧ c'.Good maxSize ∧ c.Effect last c' := by
  cases last with
  | put k v random₁ random₂ => exact h.put v random₁ random₂
  | get k =>
    simp only [RandomEvictionCache.call, get]
    cases hk : c.mValueMap.lookup k with
    | none => exact ⟨c, rfl, h, .inl ⟨id, rfl⟩⟩
    | some cacheVal =>
      refine ⟨_, rfl, ⟨h.1.write (Table.mem_keys_of_lookup hk) _, h.2⟩, .inl ⟨id, ?_⟩⟩
      refine (valueOf_write k _).trans (Function.update_eq_self_iff.mpr ?_)
      simp [valueOf, hk]
  | exists' k => exact ⟨c, rfl, h, .inl ⟨id, rfl⟩⟩
  | erase_if f =>
    obtain ⟨hlinked, rfl, hsize⟩ := h
    obtain ⟨c', hrun, hlinked', hmax, hle, hvalue⟩ :=
      hlinked.eraseFrom f c.mValuePtrs.length (Nat.zero_add _) (fun k hk => nomatch hk)
    exact ⟨c', hrun, ⟨hlinked', hmax, hle.trans hsize⟩, .inl ⟨id, funext hvalue⟩⟩
  | clear => exact ⟨_, rfl, ⟨.nil, h.2.1, Nat.zero_le _⟩, .inl ⟨id, rfl⟩⟩

theorem latest_of_after {values : K → Option V} {calls : List (Call K V)} {last : Call K V} {v : V}
    (hlatest : ∀ v, values k = some v → latest k calls = some v) (hv : last.after values k = some v) :
    latest k (last :: calls) = some v := by
  cases last with
  | put k' v' random₁ random₂ =>
    rw [Call.after, Function.update_apply] at hv
    rw [latest]
    split
    · rwa [if_pos ‹_›] at hv
    · rw [if_neg ‹_›] at hv
      exact hlatest v hv
  | get k' => exact hlatest v hv
  | exists' k' => exact hlatest v hv
  | erase_if f => exact hlatest v (Option.filter_eq_some_iff.mp hv).1
  | clear => cases hv

theorem run_good (maxSize : Nat) (calls : List (Call K V)) :
    ∃ c, run maxSize calls = some c ∧ c.Good maxSize ∧ ∀ k v, c.valueOf k = some v → latest k calls = some v := by
  induction calls with
  | nil => exact ⟨_, rfl, ⟨.nil, rfl, Nat.zero_le _⟩, fun k v hv => nomatch hv⟩
  | cons last calls ih =>
    obtain ⟨c, hrun, hgood, hlatest⟩ := ih
    obtain ⟨c', hcall, hgood', heffect⟩ := hgood.call last
    refine ⟨c', by rw [run, hrun, Option.bind_some, hcall], hgood', ?_⟩
    intro k v hv
    apply latest_of_after (hlatest k)
    rcases heffect with ⟨-, heq⟩ | ⟨-, victim, -, heq⟩
    · rwa [heq] at hv
    · rw [heq, Function.update_apply] at hv
      split at hv
      · cases hv
      · exact hv

/-- After any calls, whatever was picked, the pointers are those of the nodes, the size is bounded, `get` returns
what was put last or throws, and the next call changes the values as it should. -/
theorem run_caches (maxSize : Nat) (calls : List (Call K V)) :
    ∃ c, run maxSize calls = some c ∧ c.mValuePtrs.Nodup ∧ c.mValuePtrs.Perm c.mValueMap.keys ∧
      c.mValueMap.keys.length ≤ maxSize ∧
      (∀ k ∈ c.mValueMap, ∃ v, latest k calls = some v ∧ (c.get k).map (·.1) = .ok v) ∧
      (∀ k ∉ c.mValueMap, c.get k = .error "There is no such key in cache") ∧
      ∀ next, ∃ c', c.call next = some c' ∧ c.Effect next c' := by
  obtain ⟨c, hrun, ⟨hlinked, rfl, hsize⟩, hlatest⟩ := run_good maxSize calls
  refine ⟨c, hrun, hlinked.nodup_iff.mpr c.mValueMap.keys_nodup, hlinked, hlinked.length_eq ▸ hsize, ?_, ?_, ?_⟩
  · intro k hk
    obtain ⟨cacheVal, hvalue⟩ := Option.isSome_iff_exists.mp (AList.lookup_isSome.mpr hk)
    exact ⟨cacheVal.mValue, hlatest k _ (by simp [valueOf, hvalue]), by simp [get, hvalue, Except.map]⟩
  · intro k hk
    simp [get, AList.lookup_eq_none.mpr hk]
  · intro next
    obtain ⟨c', hcall, -, heffect⟩ := Good.call ⟨hlinked, rfl, hsize⟩ next
    exact ⟨c', hcall, heffect⟩

end RandomEvictionCache
end Diamnet.Support
