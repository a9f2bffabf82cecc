import TypedFuse.Data.BTreeMap

/-!
# The inode table

`NodeTable` is the table behind the runtime's node mutex: one slot per live inode with the four
counters that keep it alive, the stack of free inode numbers and the next fresh number.  Every
definition of the first half is one critical section of `runtime.rs`.  Four of the sections add one
to a counter (`incr`) and four subtract from one and then try to reclaim the slot (`decr`); they
differ in the counter only, so each is written as an instance of these two.

The table also records its history: which `(ino, generation)` pairs `Cx::insert` has issued, and
the slots that were reclaimed as they were at that moment.  The identity of an `Arc<NodeRecord>`
is the number of the insertion that allocated it, with `0` for the root.

`NodeTable.WF` is what every sequence of critical sections keeps true.
-/

namespace TypedFuse

/-- A node identifier: numerically the inode number. -/
abbrev NodeId : Type := ℕ

/-- The filesystem root (`FUSE_ROOT_ID`). -/
def NodeId.ROOT : NodeId := 1

/-- `Arc<NodeRecord<N>>`: the payload of a node, and the identity of its allocation. -/
structure NodeRecord (N : Type) where
  /-- Which allocation this is, for `Arc::ptr_eq`. -/
  addr : ℕ
  /-- The filesystem's node. -/
  payload : N

/-- The reference counters of a slot. -/
inductive Counter where
  /-- Names of the node. -/
  | links
  /-- Lookups granted to the kernel and not forgotten. -/
  | lookups
  /-- Open handles. -/
  | opens
  /-- Live `NodeRef`s. -/
  | leases
  deriving DecidableEq

/-- The width of the integer type of a counter. -/
def Counter.width : Counter → ℕ
  | .lookups => 64
  | _ => 32

/-- What the table stores for a live inode. -/
structure Slot (N : Type) where
  record : NodeRecord N
  generation : ℕ
  links : ℕ
  lookups : ℕ
  opens : ℕ
  leases : ℕ
  parent : NodeId

namespace Slot

variable {N : Type}

/-- Read a counter. -/
def counter (s : Slot N) : Counter → ℕ
  | .links => s.links
  | .lookups => s.lookups
  | .opens => s.opens
  | .leases => s.leases

/-- Write a counter. -/
def setCounter (s : Slot N) (v : ℕ) : Counter → Slot N
  | .links => { s with links := v }
  | .lookups => { s with lookups := v }
  | .opens => { s with opens := v }
  | .leases => { s with leases := v }

/-- Nothing refers to the slot any more. -/
def droppable (s : Slot N) : Bool :=
  s.links == 0 && s.lookups == 0 && s.opens == 0 && s.leases == 0

lemma droppable_iff {s : Slot N} : s.droppable = true ↔ ∀ c, s.counter c = 0 := by
  constructor
  · intro h c
    simp only [droppable, Bool.and_eq_true, beq_iff_eq] at h
    obtain ⟨⟨⟨h₁, h₂⟩, h₃⟩, h₄⟩ := h
    cases c <;> assumption
  · intro h
    simp only [droppable, Bool.and_eq_true, beq_iff_eq]
    exact ⟨⟨⟨h .links, h .lookups⟩, h .opens⟩, h .leases⟩

lemma counter_setCounter (s : Slot N) (v : ℕ) (c c' : Counter) :
    (s.setCounter v c).counter c' = if c' = c then v else s.counter c' := by
  cases c <;> cases c' <;> rfl

@[simp] lemma setCounter_record (s : Slot N) (v : ℕ) (c : Counter) :
    (s.setCounter v c).record = s.record := by
  cases c <;> rfl

@[simp] lemma setCounter_generation (s : Slot N) (v : ℕ) (c : Counter) :
    (s.setCounter v c).generation = s.generation := by
  cases c <;> rfl

@[simp] lemma setCounter_parent (s : Slot N) (v : ℕ) (c : Counter) :
    (s.setCounter v c).parent = s.parent := by
  cases c <;> rfl

end Slot

/-- One insertion: the identity it issued and the record it was issued for. -/
structure Issue where
  ino : ℕ
  generation : ℕ
  addr : ℕ
  deriving DecidableEq

/-- `NodeTable`: the live slots, the next fresh inode number and the stack of free numbers with
the generation to use next, most recently freed first.  `issued` and `reclaimed` are its history,
newest first. -/
structure NodeTable (N : Type) where
  map : BTreeMap ℕ (Slot N)
  nextIno : ℕ
  free : List (ℕ × ℕ)
  issued : List Issue
  reclaimed : List (ℕ × Slot N)

/-- A `NodeRef`: a lease on the slot `id`, which held `record` when the lease was taken. -/
structure NodeRef (N : Type) where
  id : NodeId
  record : NodeRecord N

namespace NodeTable

variable {N : Type}

/-- `NodeTable::new`. -/
def new : NodeTable N where
  map := ∅
  nextIno := 2
  free := []
  issued := []
  reclaimed := []

/-- The slot of an inode, if it is live. -/
def slot (t : NodeTable N) (id : NodeId) : Option (Slot N) :=
  t.map.lookup id

/-- Store a slot. -/
def set (t : NodeTable N) (id : NodeId) (s : Slot N) : NodeTable N :=
  { t with map := t.map.insert id s }

/-- `NodeTable::alloc`: pop a free number with its generation, or take a fresh one.  Overflow of
`next_ino` panics and is left undefined. -/
def alloc (t : NodeTable N) : Option ((ℕ × ℕ) × NodeTable N) :=
  match t.free with
  | p :: rest => some (p, { t with free := rest })
  | [] =>
    if t.nextIno + 1 < 2 ^ 64 then
      some ((t.nextIno, 0), { t with nextIno := t.nextIno + 1 })
    else none

/-- `NodeTable::maybe_drop`: reclaim the slot if nothing refers to it.  The payload is dropped with
it, which changes nothing here: it owns no `NodeRef` (`DropState` is about payloads that do). -/
def maybeDrop (t : NodeTable N) (id : NodeId) : NodeTable N :=
  match t.slot id with
  | some s =>
    if s.droppable then
      { t with
        map := t.map.erase id
        free := (id, (s.generation + 1) % 2 ^ 64) :: t.free
        reclaimed := (id, s) :: t.reclaimed }
    else t
  | none => t

/-- The sections that add one to a counter of a live slot.  They answer with the slot as it was,
or with nothing if the inode is not live; overflow of the counter panics and is left undefined. -/
def incr (t : NodeTable N) (c : Counter) (id : NodeId) :
    Option (Option (Slot N) × NodeTable N) :=
  match t.slot id with
  | none => some (none, t)
  | some s =>
    if s.counter c + 1 < 2 ^ c.width then
      some (some s, t.set id (s.setCounter (s.counter c + 1) c))
    else none

/-- The sections that subtract from a counter (saturating) and then try to reclaim the slot. -/
def decr (t : NodeTable N) (c : Counter) (n : ℕ) (id : NodeId) : NodeTable N :=
  maybeDrop
    (match t.slot id with
      | some s => t.set id (s.setCounter (s.counter c - n) c)
      | none => t) id

/-- `Cx::get`: lease a live slot. -/
def get (t : NodeTable N) (id : NodeId) : Option (Option (NodeRef N) × NodeTable N) :=
  (t.incr .leases id).map fun r => (r.1.map fun s => ⟨id, s.record⟩, r.2)

/-- `NodeRef::drop`: give a lease back if the slot still holds the leased record. -/
def dropRef (t : NodeTable N) (r : NodeRef N) : NodeTable N :=
  match t.slot r.id with
  | some s => if s.record.addr = r.record.addr then t.decr .leases 1 r.id else t.maybeDrop r.id
  | none => t.maybeDrop r.id

/-- `Cx::contains`. -/
def contains (t : NodeTable N) (id : NodeId) : Bool :=
  (t.slot id).isSome

/-- The slot that `Cx::insert` stores: one link and no other reference. -/
def freshSlot (t : NodeTable N) (payload : N) (generation : ℕ) (parent : NodeId) : Slot N where
  record := ⟨t.issued.length + 1, payload⟩
  generation := generation
  links := 1
  lookups := 0
  opens := 0
  leases := 0
  parent := parent

/-- `Cx::insert`: allocate an identity and store a fresh slot under it. -/
def insert (t : NodeTable N) (payload : N) (parent : NodeId) : Option (NodeId × NodeTable N) :=
  (t.alloc).map fun r =>
    let t' := r.2.set r.1.1 (t.freshSlot payload r.1.2 parent)
    (r.1.1, { t' with issued := ⟨r.1.1, r.1.2, t.issued.length + 1⟩ :: t.issued })

/-- `Cx::reparent`. -/
def reparent (t : NodeTable N) (id newParent : NodeId) : NodeTable N :=
  match t.slot id with
  | some s => t.set id { s with parent := newParent }
  | none => t

/-- `Cx::add_link`. -/
def addLink (t : NodeTable N) (id : NodeId) : Option (NodeTable N) :=
  (t.incr .links id).map Prod.snd

/-- `Cx::remove_link`. -/
def removeLink (t : NodeTable N) (id : NodeId) : NodeTable N :=
  t.decr .links 1 id

/-- `Runtime::forget`. -/
def forget (t : NodeTable N) (ino nlookup : ℕ) : NodeTable N :=
  t.decr .lookups nlookup ino

/-- The last section of `Runtime::entry_for` and the only one of `Runtime::retain_lookup`: count
one more lookup and answer with the generation. -/
def addLookup (t : NodeTable N) (id : NodeId) : Option (Option ℕ × NodeTable N) :=
  (t.incr .lookups id).map fun r => (r.1.map Slot.generation, r.2)

/-- `Runtime::add_open`: whether the inode was live. -/
def addOpen (t : NodeTable N) (ino : ℕ) : Option (Bool × NodeTable N) :=
  (t.incr .opens ino).map fun r => (r.1.isSome, r.2)

/-- `Runtime::remove_open`. -/
def removeOpen (t : NodeTable N) (ino : ℕ) : NodeTable N :=
  t.decr .opens 1 ino

/-! ## Slots after a section -/

/-- The value of a counter, `0` if the inode is not live. -/
def count (t : NodeTable N) (c : Counter) (id : NodeId) : ℕ :=
  match t.slot id with
  | some s => s.counter c
  | none => 0

lemma count_of_slot {t : NodeTable N} {id : NodeId} {s : Slot N} (h : t.slot id = some s)
    (c : Counter) : t.count c id = s.counter c := by
  rw [count, h]

lemma count_of_dead {t : NodeTable N} {id : NodeId} (h : t.slot id = none) (c : Counter) :
    t.count c id = 0 := by
  rw [count, h]

/-- A positive counter belongs to a live slot. -/
lemma slot_of_count_pos {t : NodeTable N} {c : Counter} {id : NodeId} (h : 0 < t.count c id) :
    ∃ s, t.slot id = some s := by
  cases hs : t.slot id with
  | some s => exact ⟨s, rfl⟩
  | none =>
    rw [count_of_dead hs] at h
    exact absurd h (lt_irrefl 0)

lemma slot_set (t : NodeTable N) (id i : NodeId) (s : Slot N) :
    (t.set id s).slot i = if i = id then some s else t.slot i :=
  BTreeMap.lookup_insert_ite t.map id i s

/-- Storing a slot with other counters changes those counters only. -/
lemma count_set (t : NodeTable N) (c : Counter) (id i : NodeId) (s : Slot N) :
    (t.set id s).count c i = if i = id then s.counter c else t.count c i := by
  rw [count, slot_set]
  split
  · next s' h =>
    split at h
    · next hi =>
      obtain rfl := Option.some.inj h
      rw [if_pos hi]
    · next hi => rw [if_neg hi, count_of_slot h]
  · next h =>
    split at h
    · cases h
    · next hi => rw [if_neg hi, count_of_dead h]

/-- `maybe_drop` does nothing or reclaims a slot without references. -/
lemma maybeDrop_cases (t : NodeTable N) (id : NodeId) :
    t.maybeDrop id = t ∨
      ∃ s, t.slot id = some s ∧ s.droppable = true ∧
        t.maybeDrop id =
          { t with
            map := t.map.erase id
            free := (id, (s.generation + 1) % 2 ^ 64) :: t.free
            reclaimed := (id, s) :: t.reclaimed } := by
  unfold maybeDrop
  split
  · next s hs =>
    split
    · next hd => exact Or.inr ⟨s, hs, hd, rfl⟩
    · exact Or.inl rfl
  · exact Or.inl rfl

/-- `maybe_drop` leaves no droppable slot behind. -/
lemma not_droppable_maybeDrop {t : NodeTable N} {id : NodeId} {s : Slot N}
    (h : (t.maybeDrop id).slot id = some s) : s.droppable = false := by
  unfold maybeDrop at h
  split at h
  · next s' hs =>
    split at h
    · have : (t.map.erase id).lookup id = some s := h
      rw [BTreeMap.lookup_erase_ite, if_pos rfl] at this
      cases this
    · next hd =>
      obtain rfl : s' = s := Option.some.inj (hs.symm.trans h)
      simpa using hd
  · next hs => cases hs.symm.trans h

/-- Other slots are not touched by `maybe_drop`. -/
lemma slot_maybeDrop_ne (t : NodeTable N) {id i : NodeId} (h : i ≠ id) :
    (t.maybeDrop id).slot i = t.slot i := by
  rcases maybeDrop_cases t id with heq | ⟨s, _, _, heq⟩
  · rw [heq]
  · rw [heq]
    exact (BTreeMap.lookup_erase_ite t.map id i).trans (if_neg h)

/-- A slot that survives `maybe_drop` is unchanged. -/
lemma slot_of_slot_maybeDrop {t : NodeTable N} {id i : NodeId} {s : Slot N}
    (h : (t.maybeDrop id).slot i = some s) : t.slot i = some s := by
  by_cases hi : i = id
  · subst hi
    rcases maybeDrop_cases t i with heq | ⟨s', _, _, heq⟩
    · rwa [heq] at h
    · rw [heq] at h
      have : (t.map.erase i).lookup i = some s := h
      rw [BTreeMap.lookup_erase_ite, if_pos rfl] at this
      cases this
  · rwa [slot_maybeDrop_ne t hi] at h

/-- A slot disappears in `maybe_drop` only without references. -/
lemma droppable_of_maybeDrop_dead {t : NodeTable N} {id i : NodeId} {s : Slot N}
    (h : t.slot i = some s) (hd : (t.maybeDrop id).slot i = none) :
    i = id ∧ s.droppable = true := by
  by_cases hi : i = id
  · refine ⟨hi, ?_⟩
    subst hi
    rcases maybeDrop_cases t i with heq | ⟨s', hs', hdrop, _⟩
    · rw [heq, h] at hd
      cases hd
    · obtain rfl : s' = s := Option.some.inj (hs'.symm.trans h)
      exact hdrop
  · rw [slot_maybeDrop_ne t hi, h] at hd
    cases hd

/-- Reclaiming changes no counter: the counters of the reclaimed slot were zero. -/
@[simp] lemma count_maybeDrop (t : NodeTable N) (c : Counter) (id i : NodeId) :
    (t.maybeDrop id).count c i = t.count c i := by
  cases h : (t.maybeDrop id).slot i with
  | some s => rw [count_of_slot h, count_of_slot (slot_of_slot_maybeDrop h)]
  | none =>
    rw [count_of_dead h]
    cases ht : t.slot i with
    | none => rw [count_of_dead ht]
    | some s =>
      obtain ⟨_, hd⟩ := droppable_of_maybeDrop_dead ht h
      rw [count_of_slot ht, Slot.droppable_iff.mp hd c]

/-- `incr` answers with the live slot and adds one to its counter, or finds no slot. -/
lemma incr_cases {t t' : NodeTable N} {c : Counter} {id : NodeId} {r : Option (Slot N)}
    (h : t.incr c id = some (r, t')) :
    (r = none ∧ t.slot id = none ∧ t' = t) ∨
      ∃ s, r = some s ∧ t.slot id = some s ∧
        t' = t.set id (s.setCounter (s.counter c + 1) c) := by
  unfold incr at h
  split at h
  · next hs =>
    cases h
    exact Or.inl ⟨rfl, hs, rfl⟩
  · next s hs =>
    split at h
    · cases h
      exact Or.inr ⟨s, rfl, hs, rfl⟩
    · cases h

/-- The counters after `incr`. -/
lemma count_incr {t t' : NodeTable N} {c : Counter} {id : NodeId} {r : Option (Slot N)}
    (h : t.incr c id = some (r, t')) (c' : Counter) (i : NodeId) :
    t'.count c' i = t.count c' i + if c' = c ∧ i = id ∧ r.isSome then 1 else 0 := by
  rcases incr_cases h with ⟨rfl, _, rfl⟩ | ⟨s, rfl, hs, rfl⟩
  · simp
  · rw [count_set, Slot.counter_setCounter]
    by_cases hi : i = id
    · subst hi
      by_cases hc : c' = c
      · subst hc
        simp [count_of_slot hs]
      · simp [hc, count_of_slot hs]
    · simp [hi]

/-- The slots after `incr` are the slots before it, up to counters. -/
lemma slot_incr {t t' : NodeTable N} {c : Counter} {id i : NodeId} {r : Option (Slot N)}
    (h : t.incr c id = some (r, t')) :
    t'.slot i = (t.slot i).map fun s =>
      if i = id then s.setCounter (s.counter c + 1) c else s := by
  rcases incr_cases h with ⟨rfl, hs, rfl⟩ | ⟨s, rfl, hs, rfl⟩
  · by_cases hi : i = id
    · subst hi
      rw [hs]
      rfl
    · simp [hi]
  · rw [slot_set]
    by_cases hi : i = id
    · subst hi
      simp [hs]
    · simp [hi]

/-- The counters after `decr`. -/
lemma count_decr (t : NodeTable N) (c c' : Counter) (n : ℕ) (id i : NodeId) :
    (t.decr c n id).count c' i = t.count c' i - if c' = c ∧ i = id then n else 0 := by
  unfold decr
  rw [count_maybeDrop]
  split
  · next s hs =>
    rw [count_set, Slot.counter_setCounter]
    by_cases hi : i = id
    · subst hi
      by_cases hc : c' = c
      · subst hc
        simp [count_of_slot hs]
      · simp [hc, count_of_slot hs]
    · simp [hi]
  · next hs =>
    by_cases hi : i = id
    · subst hi
      simp [count_of_dead hs]
    · simp [hi]

/-- A slot that survives `decr` is the slot it was, up to counters. -/
lemma slot_of_slot_decr {t : NodeTable N} {c : Counter} {n : ℕ} {id i : NodeId} {s : Slot N}
    (h : (t.decr c n id).slot i = some s) :
    ∃ s₀, t.slot i = some s₀ ∧
      s = if i = id then s₀.setCounter (s₀.counter c - n) c else s₀ := by
  unfold decr at h
  have h' := slot_of_slot_maybeDrop h
  split at h'
  · next s₀ hs₀ =>
    rw [slot_set] at h'
    by_cases hi : i = id
    · subst hi
      rw [if_pos rfl] at h'
      exact ⟨s₀, hs₀, by rw [if_pos rfl, Option.some.inj h']⟩
    · rw [if_neg hi] at h'
      exact ⟨s, h', (if_neg hi).symm⟩
  · next hs₀ =>
    by_cases hi : i = id
    · subst hi
      rw [hs₀] at h'
      cases h'
    · exact ⟨s, h', (if_neg hi).symm⟩

/-- A slot survives `decr` if one of its counters stays positive. -/
lemma slot_decr_of_count_pos {t : NodeTable N} {c c' : Counter} {n : ℕ} {id i : NodeId}
    (h : 0 < (t.decr c n id).count c' i) :
    ∃ s s₀, (t.decr c n id).slot i = some s ∧ t.slot i = some s₀ ∧
      s = if i = id then s₀.setCounter (s₀.counter c - n) c else s₀ := by
  obtain ⟨s, hs⟩ := slot_of_count_pos h
  obtain ⟨s₀, hs₀, heq⟩ := slot_of_slot_decr hs
  exact ⟨s, s₀, hs, hs₀, heq⟩

/-- `alloc` pops a free number or takes the next fresh one. -/
lemma alloc_cases {t t' : NodeTable N} {ino gen : ℕ} (h : t.alloc = some ((ino, gen), t')) :
    (∃ rest, t.free = (ino, gen) :: rest ∧ t' = { t with free := rest }) ∨
      (t.free = [] ∧ ino = t.nextIno ∧ gen = 0 ∧
        t' = { t with nextIno := t.nextIno + 1 }) := by
  unfold alloc at h
  split at h
  · next p rest hf =>
    cases h
    exact Or.inl ⟨rest, hf, rfl⟩
  · next hf =>
    split at h
    · cases h
      exact Or.inr ⟨hf, rfl, rfl, rfl⟩
    · cases h

/-- `Cx::insert` stores a fresh slot under the allocated number and records the issue. -/
lemma insert_cases {t t' : NodeTable N} {payload : N} {parent id : NodeId}
    (h : t.insert payload parent = some (id, t')) :
    ∃ gen t₁, t.alloc = some ((id, gen), t₁) ∧
      t' = { t₁.set id (t.freshSlot payload gen parent) with
        issued := ⟨id, gen, t.issued.length + 1⟩ :: t.issued } := by
  unfold insert at h
  obtain ⟨⟨⟨ino, gen⟩, t₁⟩, ha, heq⟩ := Option.map_eq_some_iff.mp h
  simp only [Prod.mk.injEq] at heq
  obtain ⟨rfl, rfl⟩ := heq
  exact ⟨gen, t₁, ha, rfl⟩

/-- Allocation does not touch the slots. -/
lemma slot_alloc {t t' : NodeTable N} {p : ℕ × ℕ} (h : t.alloc = some (p, t')) (i : NodeId) :
    t'.slot i = t.slot i := by
  obtain ⟨ino, gen⟩ := p
  rcases alloc_cases h with ⟨rest, _, rfl⟩ | ⟨_, _, _, rfl⟩ <;> rfl

/-- The slots after `Cx::insert`. -/
lemma slot_insert {t t' : NodeTable N} {payload : N} {parent id : NodeId}
    (h : t.insert payload parent = some (id, t')) :
    ∃ gen, ∀ i, t'.slot i =
      if i = id then some (t.freshSlot payload gen parent) else t.slot i := by
  obtain ⟨gen, t₁, ha, rfl⟩ := insert_cases h
  refine ⟨gen, fun i => ?_⟩
  have hs : (t₁.set id (t.freshSlot payload gen parent)).slot i =
      if i = id then some (t.freshSlot payload gen parent) else t₁.slot i := slot_set _ _ _ _
  rw [slot_alloc ha] at hs
  exact hs

/-- Changing the parent changes no counter. -/
@[simp] lemma count_reparent (t : NodeTable N) (c : Counter) (id newParent i : NodeId) :
    (t.reparent id newParent).count c i = t.count c i := by
  unfold reparent
  split
  · next s hs =>
    rw [count_set]
    by_cases hi : i = id
    · subst hi
      rw [if_pos rfl, count_of_slot hs]
      cases c <;> rfl
    · rw [if_neg hi]
  · rfl

lemma slot_reparent (t : NodeTable N) (id newParent i : NodeId) :
    (t.reparent id newParent).slot i =
      (t.slot i).map fun s => if i = id then { s with parent := newParent } else s := by
  unfold reparent
  split
  · next s hs =>
    rw [slot_set]
    by_cases hi : i = id
    · subst hi
      simp [hs]
    · simp [hi]
  · next hs =>
    by_cases hi : i = id
    · subst hi
      simp [hs]
    · simp [hi]

/-- A lease on the record that the slot holds is given back by lowering the counter. -/
lemma dropRef_eq_decr {t : NodeTable N} {r : NodeRef N} {s : Slot N} (h : t.slot r.id = some s)
    (hr : s.record.addr = r.record.addr) : t.dropRef r = t.decr .leases 1 r.id := by
  unfold dropRef
  rw [h]
  exact if_pos hr

end NodeTable

end TypedFuse
