import TypedFuse.Core.NodeTable

/-!
# Inode identity

Inode numbers are recycled, so an inode is identified by its number and a generation.  The table
carries the generation of a number from one use to the next through the free list.  This file
states the invariant behind that scheme and shows that every critical section keeps it.

The generation of an insertion is the number of identities its inode number had before
(`turn`), taken modulo `2 ^ 64`; the root is the first use of its number.  From this it follows
that fewer than `2 ^ 64` insertions never repeat an identity (`Ordered.nodup`).
-/

namespace TypedFuse

/-- How many identities the number `i` has had, given the insertions so far. -/
def turn (l : List Issue) (i : ℕ) : ℕ :=
  l.countP (fun e => e.ino = i) + if i = NodeId.ROOT then 1 else 0

/-- The insertions `l`, newest first, received the generations and addresses that were next. -/
def Ordered : List Issue → Prop
  | [] => True
  | e :: l => e.generation = turn l e.ino % 2 ^ 64 ∧ e.addr = l.length + 1 ∧ Ordered l

lemma turn_cons (e : Issue) (l : List Issue) (i : ℕ) :
    turn (e :: l) i = turn l i + if e.ino = i then 1 else 0 := by
  unfold turn
  rw [List.countP_cons]
  by_cases h : e.ino = i
  · simp only [h, decide_true, if_true]
    omega
  · simp [h]

lemma turn_le (l : List Issue) (i : ℕ) : turn l i ≤ l.length + 1 := by
  have h : l.countP (fun e => e.ino = i) ≤ l.length := List.countP_le_length
  unfold turn
  split <;> omega

/-- Below the width of the generation counter, an issued generation lies strictly below the number
of identities its inode number has had. -/
lemma Ordered.generation_lt {l : List Issue} (h : Ordered l) (hl : l.length < 2 ^ 64) {e : Issue}
    (he : e ∈ l) : e.generation < turn l e.ino := by
  induction l with
  | nil => cases he
  | cons a l ih =>
    obtain ⟨hgen, _, hrest⟩ := h
    have hlen : l.length < 2 ^ 64 := by
      simp only [List.length_cons] at hl
      omega
    rw [turn_cons]
    rcases List.mem_cons.mp he with rfl | hmem
    · have : e.generation ≤ turn l e.ino := hgen ▸ Nat.mod_le _ _
      simp only [if_true]
      omega
    · have := ih hrest hlen hmem
      omega

/-- The identity that an insertion received, as the kernel sees it. -/
def Issue.identity (e : Issue) : ℕ × ℕ :=
  (e.ino, e.generation)

/-- Fewer than `2 ^ 64` insertions receive pairwise distinct identities. -/
theorem Ordered.nodup {l : List Issue} (h : Ordered l) (hl : l.length < 2 ^ 64) :
    (l.map Issue.identity).Nodup := by
  induction l with
  | nil => exact List.nodup_nil
  | cons a l ih =>
    obtain ⟨hgen, _, hrest⟩ := h
    simp only [List.length_cons] at hl
    have hlen : l.length < 2 ^ 64 := by omega
    refine List.nodup_cons.mpr ⟨?_, ih hrest hlen⟩
    intro hmem
    obtain ⟨e, he, heq⟩ := List.mem_map.mp hmem
    obtain ⟨hino, hg⟩ := Prod.mk.inj heq
    have hlt := hrest.generation_lt hlen he
    have hturn : turn l a.ino < 2 ^ 64 := lt_of_le_of_lt (turn_le l a.ino) hl
    rw [Nat.mod_eq_of_lt hturn] at hgen
    rw [hino, hg, hgen] at hlt
    exact lt_irrefl _ hlt

/-- No insertion below the width of the generation counter receives the identity of the root. -/
lemma Ordered.ne_root {l : List Issue} (h : Ordered l) (hl : l.length < 2 ^ 64) {e : Issue}
    (he : e ∈ l) : e.identity ≠ (NodeId.ROOT, 0) := by
  induction l with
  | nil => cases he
  | cons a l ih =>
    obtain ⟨hgen, _, hrest⟩ := h
    simp only [List.length_cons] at hl
    rcases List.mem_cons.mp he with rfl | hmem
    · intro heq
      obtain ⟨hino, hg⟩ := Prod.mk.inj heq
      have hturn : turn l e.ino < 2 ^ 64 := lt_of_le_of_lt (turn_le l e.ino) hl
      rw [Nat.mod_eq_of_lt hturn, hg, hino, turn, if_pos rfl] at hgen
      omega
    · exact ih hrest (by omega) hmem

/-- Insertions with one identity are one insertion. -/
lemma Ordered.addr_unique {l : List Issue} (h : Ordered l) (hl : l.length < 2 ^ 64) {e e' : Issue}
    (he : e ∈ l) (he' : e' ∈ l) (heq : e.identity = e'.identity) : e.addr = e'.addr := by
  have hinj := List.inj_on_of_nodup_map (h.nodup hl) he he' heq
  rw [hinj]

namespace NodeTable

variable {N : Type}

/-- The part of the invariant that does not mention the counters of live slots. -/
structure Consistent (t : NodeTable N) : Prop where
  /-- Reclaimed slots had no references. -/
  reclaimed : ∀ e ∈ t.reclaimed, e.2.droppable = true
  /-- The numbers `0` and `1` are never fresh. -/
  two_le : 2 ≤ t.nextIno
  /-- No number is free twice. -/
  free_nodup : (t.free.map Prod.fst).Nodup
  /-- A free number is not live. -/
  free_dead : ∀ p ∈ t.free, t.slot p.1 = none
  /-- A free number has been used. -/
  free_lt : ∀ p ∈ t.free, p.1 < t.nextIno
  /-- A live number has been used. -/
  live_lt : ∀ i s, t.slot i = some s → i < t.nextIno
  /-- An issued number has been used. -/
  issued_lt : ∀ e ∈ t.issued, e.ino < t.nextIno
  /-- The insertions received the identities that were next. -/
  ordered : Ordered t.issued
  /-- A live slot has the last generation of its number. -/
  live_gen : ∀ i s, t.slot i = some s →
    ∃ k, k + 1 = turn t.issued i ∧ s.generation = k % 2 ^ 64
  /-- A free number carries the generation that is next. -/
  free_gen : ∀ p ∈ t.free, p.2 = turn t.issued p.1 % 2 ^ 64
  /-- A live slot holds the record of the insertion that issued its identity, or the root's. -/
  live_issue : ∀ i s, t.slot i = some s →
    (∃ e ∈ t.issued, e.identity = (i, s.generation) ∧ e.addr = s.record.addr) ∨
      (i = NodeId.ROOT ∧ s.generation = 0 ∧ s.record.addr = 0)

/-- The invariant of the inode table. -/
structure WF (t : NodeTable N) : Prop extends Consistent t where
  /-- Every live slot has a reference. -/
  live : ∀ i s, t.slot i = some s → s.droppable = false

/-- Two tables with the same history and the same slots up to counters and parents. -/
structure SameIdentity (t t' : NodeTable N) : Prop where
  nextIno : t'.nextIno = t.nextIno
  free : t'.free = t.free
  issued : t'.issued = t.issued
  reclaimed : t'.reclaimed = t.reclaimed
  slot : ∀ i, (t'.slot i).map (fun s => (s.record, s.generation)) =
    (t.slot i).map fun s => (s.record, s.generation)

/-- A slot of the second table comes from a slot of the first one. -/
lemma SameIdentity.slot_eq {t t' : NodeTable N} (h : SameIdentity t t') {i : NodeId} {s : Slot N}
    (hs : t'.slot i = some s) :
    ∃ s₀, t.slot i = some s₀ ∧ s₀.record = s.record ∧
      s₀.generation = s.generation := by
  have heq := h.slot i
  rw [hs, Option.map_some] at heq
  obtain ⟨s₀, hs₀, hp⟩ := Option.map_eq_some_iff.mp heq.symm
  obtain ⟨hrec, hgen⟩ := Prod.mk.inj hp
  exact ⟨s₀, hs₀, hrec, hgen⟩

/-- The consistency of a table does not depend on counters and parents. -/
lemma Consistent.congr {t t' : NodeTable N} (hc : t.Consistent) (h : SameIdentity t t') :
    t'.Consistent where
  reclaimed := h.reclaimed ▸ hc.reclaimed
  two_le := h.nextIno ▸ hc.two_le
  free_nodup := h.free ▸ hc.free_nodup
  free_dead := by
    intro p hp
    rw [h.free] at hp
    have heq := h.slot p.1
    rw [hc.free_dead p hp] at heq
    simpa using heq
  free_lt := by
    rw [h.free, h.nextIno]
    exact hc.free_lt
  live_lt := by
    intro i s hs
    obtain ⟨s₀, hs₀, _, _⟩ := h.slot_eq hs
    rw [h.nextIno]
    exact hc.live_lt i s₀ hs₀
  issued_lt := by
    rw [h.issued, h.nextIno]
    exact hc.issued_lt
  ordered := h.issued ▸ hc.ordered
  live_gen := by
    intro i s hs
    obtain ⟨s₀, hs₀, _, hgen⟩ := h.slot_eq hs
    rw [h.issued, ← hgen]
    exact hc.live_gen i s₀ hs₀
  free_gen := by
    rw [h.free, h.issued]
    exact hc.free_gen
  live_issue := by
    intro i s hs
    obtain ⟨s₀, hs₀, hrec, hgen⟩ := h.slot_eq hs
    rw [h.issued, ← hgen, ← hrec]
    exact hc.live_issue i s₀ hs₀

/-- Storing a slot with the record and the generation it had keeps identities. -/
lemma sameIdentity_set {t : NodeTable N} {id : NodeId} {s s' : Slot N} (hs : t.slot id = some s)
    (hrec : s'.record = s.record) (hgen : s'.generation = s.generation) :
    SameIdentity t (t.set id s') where
  nextIno := rfl
  free := rfl
  issued := rfl
  reclaimed := rfl
  slot := by
    intro i
    rw [slot_set]
    split
    · next hi => rw [hi, hs, Option.map_some, Option.map_some, hrec, hgen]
    · rfl

/-- Reclaiming keeps the table consistent: the number becomes free with its next generation. -/
lemma Consistent.maybeDrop {t : NodeTable N} (h : t.Consistent) (id : NodeId) :
    (t.maybeDrop id).Consistent := by
  rcases maybeDrop_cases t id with heq | ⟨s, hs, hd, heq⟩
  · rw [heq]
    exact h
  -- every slot of the new table is an old slot at another number
  have hold : ∀ i s', (t.maybeDrop id).slot i = some s' → i ≠ id ∧ t.slot i = some s' := by
    intro i s' hs'
    refine ⟨?_, slot_of_slot_maybeDrop hs'⟩
    rintro rfl
    have hndrop := not_droppable_maybeDrop hs'
    obtain rfl : s = s' := Option.some.inj (hs.symm.trans (slot_of_slot_maybeDrop hs'))
    rw [hd] at hndrop
    cases hndrop
  have hnotfree : id ∉ t.free.map Prod.fst := by
    intro hmem
    obtain ⟨p, hp, hpid⟩ := List.mem_map.mp hmem
    have := h.free_dead p hp
    rw [hpid, hs] at this
    cases this
  have hdead : (t.maybeDrop id).slot id = none := by
    cases hsl : (t.maybeDrop id).slot id with
    | none => rfl
    | some s' => exact absurd rfl (hold id s' hsl).1
  obtain ⟨k, hk, hgen⟩ := h.live_gen id s hs
  have hfree : (t.maybeDrop id).free = (id, (s.generation + 1) % 2 ^ 64) :: t.free := by rw [heq]
  have hissued : (t.maybeDrop id).issued = t.issued := by rw [heq]
  have hnext : (t.maybeDrop id).nextIno = t.nextIno := by rw [heq]
  refine
    { reclaimed := ?_, two_le := hnext ▸ h.two_le, free_nodup := ?_, free_dead := ?_,
      free_lt := ?_, live_lt := ?_, issued_lt := ?_, ordered := hissued ▸ h.ordered,
      live_gen := ?_, free_gen := ?_, live_issue := ?_ }
  · rw [heq]
    intro e he
    rcases List.mem_cons.mp he with rfl | he
    · exact hd
    · exact h.reclaimed e he
  · rw [hfree]
    exact List.nodup_cons.mpr ⟨hnotfree, h.free_nodup⟩
  · rw [hfree]
    intro p hp
    rcases List.mem_cons.mp hp with rfl | hp
    · exact hdead
    · have hne : p.1 ≠ id := fun heq' => hnotfree (List.mem_map.mpr ⟨p, hp, heq'⟩)
      rw [slot_maybeDrop_ne t hne]
      exact h.free_dead p hp
  · rw [hfree, hnext]
    intro p hp
    rcases List.mem_cons.mp hp with rfl | hp
    · exact h.live_lt id s hs
    · exact h.free_lt p hp
  · rw [hnext]
    exact fun i s' hs' => h.live_lt i s' (hold i s' hs').2
  · rw [hissued, hnext]
    exact h.issued_lt
  · rw [hissued]
    exact fun i s' hs' => h.live_gen i s' (hold i s' hs').2
  · rw [hfree, hissued]
    intro p hp
    rcases List.mem_cons.mp hp with rfl | hp
    · simp only [hgen, ← hk, Nat.mod_add_mod]
    · exact h.free_gen p hp
  · rw [hissued]
    exact fun i s' hs' => h.live_issue i s' (hold i s' hs').2

/-- What `alloc` hands out is neither live nor free afterwards, and its generation is next. -/
lemma Consistent.alloc {t t₁ : NodeTable N} {ino gen : ℕ} (h : t.Consistent)
    (ha : t.alloc = some ((ino, gen), t₁)) :
    t.slot ino = none ∧ gen = turn t.issued ino % 2 ^ 64 ∧ ino < t₁.nextIno ∧
      ino ∉ t₁.free.map Prod.fst ∧ (∀ p ∈ t₁.free, p ∈ t.free) ∧
      (t₁.free.map Prod.fst).Nodup ∧
      t.nextIno ≤ t₁.nextIno ∧ t₁.issued = t.issued ∧ t₁.reclaimed = t.reclaimed := by
  rcases alloc_cases ha with ⟨rest, hf, rfl⟩ | ⟨hf, rfl, rfl, rfl⟩
  · have hmem : (ino, gen) ∈ t.free := by
      rw [hf]
      exact List.mem_cons_self
    have hnd := h.free_nodup
    rw [hf, List.map_cons, List.nodup_cons] at hnd
    refine ⟨h.free_dead _ hmem, h.free_gen _ hmem, h.free_lt _ hmem, hnd.1, ?_, hnd.2, le_rfl,
      rfl, rfl⟩
    intro p hp
    rw [hf]
    exact List.mem_cons_of_mem _ hp
  · have hdead : t.slot t.nextIno = none := by
      cases hs : t.slot t.nextIno with
      | none => rfl
      | some s => exact absurd (h.live_lt _ s hs) (lt_irrefl _)
    have hturn : turn t.issued t.nextIno = 0 := by
      have hroot : t.nextIno ≠ NodeId.ROOT := by
        have := h.two_le
        unfold NodeId.ROOT
        omega
      unfold turn
      rw [if_neg hroot, Nat.add_zero, List.countP_eq_zero]
      intro e he
      have := h.issued_lt e he
      simp only [decide_eq_true_eq]
      omega
    have hfree' : ({ t with nextIno := t.nextIno + 1 } : NodeTable N).free = [] := hf
    refine ⟨hdead, by rw [hturn]; rfl, Nat.lt_succ_self _, ?_, ?_, ?_, Nat.le_succ _, rfl, rfl⟩
    · rw [hfree']
      exact List.not_mem_nil
    · rw [hfree']
      intro p hp
      cases hp
    · rw [hfree']
      exact List.nodup_nil

/-- Inserting keeps the table consistent. -/
lemma Consistent.insert {t t' : NodeTable N} {payload : N} {parent id : NodeId}
    (h : t.Consistent) (hi : t.insert payload parent = some (id, t')) : t'.Consistent := by
  obtain ⟨gen, t₁, ha, rfl⟩ := insert_cases hi
  obtain ⟨hdead, hgen, hlt, hnf, hsub, hnd, hle, hiss, hrecl⟩ := h.alloc ha
  have hslot : ∀ i, ({ t₁.set id (t.freshSlot payload gen parent) with
      issued := ⟨id, gen, t.issued.length + 1⟩ :: t.issued } : NodeTable N).slot i =
      if i = id then some (t.freshSlot payload gen parent) else t.slot i := by
    intro i
    have hs := slot_set t₁ id i (t.freshSlot payload gen parent)
    rw [slot_alloc ha] at hs
    exact hs
  refine
    { reclaimed := ?_, two_le := le_trans h.two_le hle, free_nodup := hnd, free_dead := ?_,
      free_lt := ?_, live_lt := ?_, issued_lt := ?_, ordered := ⟨hgen, rfl, h.ordered⟩,
      live_gen := ?_, free_gen := ?_, live_issue := ?_ }
  · intro e he
    exact h.reclaimed e (hrecl ▸ he)
  · intro p hp
    have hne : p.1 ≠ id := fun heq => hnf (List.mem_map.mpr ⟨p, hp, heq⟩)
    rw [hslot, if_neg hne]
    exact h.free_dead p (hsub p hp)
  · intro p hp
    exact lt_of_lt_of_le (h.free_lt p (hsub p hp)) hle
  · intro i s hs
    rw [hslot] at hs
    split at hs
    · next hi => exact hi ▸ hlt
    · exact lt_of_lt_of_le (h.live_lt i s hs) hle
  · intro e he
    rcases List.mem_cons.mp he with rfl | he
    · exact hlt
    · exact lt_of_lt_of_le (h.issued_lt e he) hle
  · intro i s hs
    rw [hslot] at hs
    rw [turn_cons]
    split at hs
    · next hi =>
      subst hi
      obtain rfl := Option.some.inj hs
      exact ⟨turn t.issued i, by simp, hgen⟩
    · next hi =>
      rw [if_neg (fun heq => hi heq.symm)]
      exact h.live_gen i s hs
  · intro p hp
    have hne : id ≠ p.1 := fun heq => hnf (List.mem_map.mpr ⟨p, hp, heq.symm⟩)
    rw [turn_cons, if_neg hne]
    exact h.free_gen p (hsub p hp)
  · intro i s hs
    rw [hslot] at hs
    split at hs
    · next hi =>
      obtain rfl := Option.some.inj hs
      exact Or.inl ⟨_, List.mem_cons_self, by rw [hi]; rfl, rfl⟩
    · rcases h.live_issue i s hs with ⟨e, he, hid, haddr⟩ | hroot
      · exact Or.inl ⟨e, List.mem_cons_of_mem _ he, hid, haddr⟩
      · exact Or.inr hroot

/-! ## The sections keep the invariant -/

/-- Adding to a counter keeps the invariant. -/
lemma WF.incr {t t' : NodeTable N} (h : t.WF) {c : Counter} {id : NodeId} {r : Option (Slot N)}
    (hi : t.incr c id = some (r, t')) : t'.WF := by
  rcases incr_cases hi with ⟨_, _, rfl⟩ | ⟨s, rfl, hs, rfl⟩
  · exact h
  refine ⟨h.toConsistent.congr (sameIdentity_set hs (by simp) (by simp)), ?_⟩
  intro i s' hs'
  rw [slot_set] at hs'
  split at hs'
  · obtain rfl := Option.some.inj hs'
    rw [← Bool.not_eq_true]
    intro hd
    have := Slot.droppable_iff.mp hd c
    rw [Slot.counter_setCounter, if_pos rfl] at this
    omega
  · exact h.live i s' hs'

/-- Subtracting from a counter and reclaiming keeps the invariant. -/
lemma WF.decr {t : NodeTable N} (h : t.WF) (c : Counter) (n : ℕ) (id : NodeId) :
    (t.decr c n id).WF := by
  refine ⟨?_, ?_⟩
  · unfold NodeTable.decr
    refine Consistent.maybeDrop ?_ id
    split
    · next s hs => exact h.toConsistent.congr (sameIdentity_set hs (by simp) (by simp))
    · exact h.toConsistent
  · intro i s hs
    by_cases hi : i = id
    · subst hi
      exact not_droppable_maybeDrop hs
    · obtain ⟨s₀, hs₀, heq⟩ := slot_of_slot_decr hs
      rw [heq, if_neg hi]
      exact h.live i s₀ hs₀

/-- In a table that satisfies the invariant `maybe_drop` has nothing to do. -/
lemma WF.maybeDrop_eq {t : NodeTable N} (h : t.WF) (id : NodeId) : t.maybeDrop id = t := by
  rcases maybeDrop_cases t id with heq | ⟨s, hs, hd, _⟩
  · exact heq
  · rw [h.live id s hs] at hd
    cases hd

/-- Dropping a `NodeRef` keeps the invariant, whatever the reference is. -/
lemma WF.dropRef {t : NodeTable N} (h : t.WF) (r : NodeRef N) : (t.dropRef r).WF := by
  unfold NodeTable.dropRef
  split
  · split
    · exact h.decr _ _ _
    · rw [h.maybeDrop_eq]
      exact h
  · rw [h.maybeDrop_eq]
    exact h

/-- Inserting keeps the invariant. -/
lemma WF.insert {t t' : NodeTable N} (h : t.WF) {payload : N} {parent id : NodeId}
    (hi : t.insert payload parent = some (id, t')) : t'.WF := by
  refine ⟨h.toConsistent.insert hi, ?_⟩
  obtain ⟨gen, hslot⟩ := slot_insert hi
  intro i s hs
  rw [hslot] at hs
  split at hs
  · obtain rfl := Option.some.inj hs
    rfl
  · exact h.live i s hs

/-- Inserting does not overwrite a live slot. -/
lemma WF.insert_dead {t t' : NodeTable N} (h : t.WF) {payload : N} {parent id : NodeId}
    (hi : t.insert payload parent = some (id, t')) : t.slot id = none := by
  obtain ⟨gen, t₁, ha, _⟩ := insert_cases hi
  exact (h.toConsistent.alloc ha).1

/-- Changing the parent keeps the invariant. -/
lemma WF.reparent {t : NodeTable N} (h : t.WF) (id newParent : NodeId) :
    (t.reparent id newParent).WF := by
  refine ⟨?_, ?_⟩
  · unfold NodeTable.reparent
    split
    · next s hs => exact h.toConsistent.congr (sameIdentity_set hs rfl rfl)
    · exact h.toConsistent
  · intro i s hs
    rw [slot_reparent] at hs
    obtain ⟨s₀, hs₀, rfl⟩ := Option.map_eq_some_iff.mp hs
    have := h.live i s₀ hs₀
    split
    · exact this
    · exact this

end NodeTable

end TypedFuse
