import Mathlib.Combinatorics.Enumerative.DoubleCounting
import Mathlib.Data.Finmap
import Mathlib.Tactic

/-!
# Finite maps with lookup, insertion and removal

`BTreeMap K V` is Mathlib's `Finmap` with a constant value type.  This file adds the rewriting
rules for looking up a key after an insertion or a removal, with the comparison of the keys made
explicit, and counts the entries that satisfy a test.
-/

/-- A finite map from `K` to `V`. -/
abbrev BTreeMap (K V : Type) : Type :=
  Finmap fun _ : K => V

namespace BTreeMap

variable {K V : Type} [DecidableEq K]

/-- Looking up a key after an insertion. -/
lemma lookup_insert_ite (m : BTreeMap K V) (a k : K) (v : V) :
    (m.insert a v).lookup k = if k = a then some v else m.lookup k := by
  split
  · next h =>
    subst h
    exact Finmap.lookup_insert m
  · next h => exact Finmap.lookup_insert_of_ne m h

/-- Looking up a key after a removal. -/
lemma lookup_erase_ite (m : BTreeMap K V) (a k : K) :
    (m.erase a).lookup k = if k = a then none else m.lookup k := by
  split
  · next h =>
    subst h
    exact Finmap.lookup_erase k m
  · next h => exact Finmap.lookup_erase_ne h

/-- A map is determined by its lookups after removing and inserting an entry it has. -/
lemma insert_erase_of_lookup {m : BTreeMap K V} {a : K} {v : V} (h : m.lookup a = some v) :
    (m.erase a).insert a v = m := by
  refine Finmap.ext_lookup fun k => ?_
  rw [lookup_insert_ite]
  split
  · next hk => rw [hk, h]
  · next hk => rw [lookup_erase_ite, if_neg hk]

/-- The number of entries that pass a test. -/
def countWhere (m : BTreeMap K V) (p : K → V → Bool) : ℕ :=
  (m.entries.filter fun e => p e.1 e.2).card

omit [DecidableEq K] in
/-- The empty map has no entries to count. -/
@[simp] lemma countWhere_empty (p : K → V → Bool) : (∅ : BTreeMap K V).countWhere p = 0 := rfl

/-- A new key adds one to the count if its entry passes the test. -/
lemma countWhere_insert {m : BTreeMap K V} {a : K} (h : m.lookup a = none) (v : V)
    (p : K → V → Bool) :
    countWhere (m.insert a v) p = countWhere m p + if p a v then 1 else 0 := by
  have ha : a ∉ m := Finmap.lookup_eq_none.mp h
  rw [countWhere, countWhere, Finmap.entries_insert_of_notMem ha, Multiset.filter_cons]
  cases p a v with
  | false => simp
  | true => simp [add_comm]

/-- Removing an entry takes one from the count if it passed the test. -/
lemma countWhere_erase {m : BTreeMap K V} {a : K} {v : V} (h : m.lookup a = some v)
    (p : K → V → Bool) :
    countWhere (m.erase a) p + (if p a v then 1 else 0) = countWhere m p := by
  have hm : (m.erase a).lookup a = none := Finmap.lookup_erase a m
  rw [← countWhere_insert hm v p, insert_erase_of_lookup h]

/-- An entry that passes the test is counted. -/
lemma countWhere_pos {m : BTreeMap K V} {a : K} {v : V} (h : m.lookup a = some v)
    {p : K → V → Bool} (hp : p a v = true) : 0 < countWhere m p := by
  have := countWhere_erase h p
  rw [if_pos hp] at this
  omega

/-- Tests that agree on the entries of a map count the same entries. -/
lemma countWhere_congr {m : BTreeMap K V} {p q : K → V → Bool}
    (h : ∀ k v, m.lookup k = some v → p k v = q k v) : countWhere m p = countWhere m q := by
  unfold countWhere
  congr 1
  refine Multiset.filter_congr ?_
  rintro ⟨k, v⟩ hkv
  rw [h k v (Finmap.mem_lookup_iff.mpr hkv)]

/-- Nothing is counted exactly if no entry passes the test. -/
lemma countWhere_eq_zero_iff {m : BTreeMap K V} {p : K → V → Bool} :
    countWhere m p = 0 ↔ ∀ k v, m.lookup k = some v → p k v = false := by
  constructor
  · intro h k v hkv
    by_contra hp
    have hpos := countWhere_pos hkv (p := p) (by simpa using hp)
    omega
  · intro h
    rw [countWhere_congr (q := fun _ _ => false) h]
    simp [countWhere]

/-- The keys of the entries that pass a test. -/
lemma countWhere_eq_ncard (m : BTreeMap K V) (p : K → V → Bool) :
    countWhere m p = Set.ncard {k | ∃ v, m.lookup k = some v ∧ p k v = true} := by
  let keys := (m.entries.filter fun e => p e.1 e.2).map Sigma.fst
  have hnodup : keys.Nodup :=
    Multiset.nodup_of_le (Multiset.map_le_map (Multiset.filter_le _ _)) m.nodupKeys.nodup_keys
  have hset : {k | ∃ v, m.lookup k = some v ∧ p k v = true} = (keys.toFinset : Set K) := by
    ext k
    rw [Set.mem_ofPred_eq, Finset.mem_coe, Multiset.mem_toFinset, Multiset.mem_map]
    constructor
    · rintro ⟨v, hv, hp⟩
      exact ⟨⟨k, v⟩, Multiset.mem_filter.mpr ⟨Finmap.mem_lookup_iff.mp hv, hp⟩, rfl⟩
    · rintro ⟨⟨k', v⟩, he, rfl⟩
      obtain ⟨hv, hp⟩ := Multiset.mem_filter.mp he
      exact ⟨v, Finmap.mem_lookup_iff.mpr hv, hp⟩
  rw [hset, Set.ncard_coe_finset, Multiset.toFinset_card_of_nodup hnodup, Multiset.card_map]
  rfl

/-- A map whose entries name entries of another map that name them back is the smaller one. -/
lemma card_keys_le {K' V' : Type} [DecidableEq K'] {m : BTreeMap K V} {m' : BTreeMap K' V'}
    (f : V → K') (g : V' → K)
    (h : ∀ k v, m.lookup k = some v → ∃ v', m'.lookup (f v) = some v' ∧ g v' = k) :
    m.keys.card ≤ m'.keys.card := by
  refine Finset.card_le_card_of_forall_subsingleton
    (fun k k' => ∃ v, m.lookup k = some v ∧ f v = k') ?_ ?_
  · intro k hk
    obtain ⟨v, hv⟩ := Finmap.mem_iff.mp (Finmap.mem_keys.mp hk)
    obtain ⟨v', hv', _⟩ := h k v hv
    exact ⟨f v, Finmap.mem_keys.mpr (Finmap.mem_iff.mpr ⟨v', hv'⟩), v, hv, rfl⟩
  · rintro k' _ k₁ ⟨_, v₁, hv₁, rfl⟩ k₂ ⟨_, v₂, hv₂, heq⟩
    obtain ⟨w₁, hw₁, hk₁⟩ := h k₁ v₁ hv₁
    obtain ⟨w₂, hw₂, hk₂⟩ := h k₂ v₂ hv₂
    rw [heq, hw₁] at hw₂
    rw [← hk₁, ← hk₂, Option.some.inj hw₂]

end BTreeMap
