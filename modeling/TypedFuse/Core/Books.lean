import TypedFuse.Core.DropGlue

/-!
# The books of the table

`Books` says how the node table, the strong counts of its records and the `NodeRef`s that exist
belong together.  Each statement of the code of the table keeps them, with what it moves: `get`
makes a lease and an `Arc`, `giveBack` ends a lease, `maybe_drop` takes an `Arc` out of the table,
and the drop of an `Arc` lowers its count.
-/

namespace TypedFuse

open NodeTable

variable {N : Type}

/-! ## The books of the table -/

/-- The number of slots that have the record. -/
def NodeTable.sharing (t : NodeTable N) (addr : ℕ) : ℕ :=
  t.map.countWhere fun _ sl => sl.record.addr == addr

/-- The table, the strong counts of the records, the `NodeRef`s that exist and the `Arc`s outside
of the table agree: a `NodeRef` leases a live slot that has its record, a slot counts its leases,
and a record counts the slots and the `Arc`s that share it. -/
structure Books (t : NodeTable N) (strong : ℕ → ℕ) (leases : Multiset Lease)
    (arcs : Multiset ℕ) : Prop where
  consistent : t.Consistent
  leased : ∀ r ∈ leases, ∃ sl, t.slot r.id = some sl ∧ sl.record.addr = r.addr
  counted : ∀ id sl, t.slot id = some sl → sl.leases = (leases.map Lease.id).count id
  shared : ∀ addr, strong addr = t.sharing addr + arcs.count addr
  fresh : ∀ addr, t.issued.length < addr → strong addr = 0

namespace Books

variable {t t' : NodeTable N} {strong : ℕ → ℕ} {leases leases' : Multiset Lease}
  {arcs : Multiset ℕ}

/-- The record of a live slot has been allocated. -/
lemma addr_le (h : Books t strong leases arcs) {id : NodeId} {sl : Slot N}
    (hs : t.slot id = some sl) : sl.record.addr ≤ t.issued.length := by
  by_contra hlt
  have hpos : 0 < t.sharing sl.record.addr := BTreeMap.countWhere_pos hs (beq_self_eq_true _)
  have hzero := h.fresh _ (Nat.lt_of_not_le hlt)
  rw [h.shared] at hzero
  omega

/-- Other leases of the slots, and other counters. -/
lemma recount (h : Books t strong leases arcs) (hid : SameIdentity t t')
    (hleased : ∀ r ∈ leases', ∃ sl, t.slot r.id = some sl ∧ sl.record.addr = r.addr)
    (hcounted : ∀ id sl, t'.slot id = some sl → sl.leases = (leases'.map Lease.id).count id) :
    Books t' strong leases' arcs where
  consistent := h.consistent.congr hid
  leased := by
    intro r hr
    obtain ⟨sl, hsl, haddr⟩ := hleased r hr
    have heq := hid.slot r.id
    rw [hsl, Option.map_some] at heq
    obtain ⟨sl', hsl', hp⟩ := Option.map_eq_some_iff.mp heq
    refine ⟨sl', hsl', ?_⟩
    rw [(Prod.mk.inj hp).1, haddr]
  counted := hcounted
  shared := by
    intro addr
    rw [h.shared addr, sharing, sharing, BTreeMap.countWhere_eq_ncard,
      BTreeMap.countWhere_eq_ncard]
    congr 2
    ext k
    have heq := hid.slot k
    constructor
    · rintro ⟨sl, hsl, haddr⟩
      rw [show t.slot k = some sl from hsl, Option.map_some] at heq
      obtain ⟨sl', hsl', hp⟩ := Option.map_eq_some_iff.mp heq
      exact ⟨sl', hsl', by rw [(Prod.mk.inj hp).1]; exact haddr⟩
    · rintro ⟨sl', hsl', haddr⟩
      rw [show t'.slot k = some sl' from hsl', Option.map_some] at heq
      obtain ⟨sl, hsl, hp⟩ := Option.map_eq_some_iff.mp heq.symm
      exact ⟨sl, hsl, by rw [(Prod.mk.inj hp).1]; exact haddr⟩
  fresh := by
    rw [hid.issued]
    exact h.fresh

/-- Counters that are no leases, and parents, do not matter. -/
lemma congr (h : Books t strong leases arcs) (hid : SameIdentity t t')
    (hleases : ∀ i, (t'.slot i).map Slot.leases = (t.slot i).map Slot.leases) :
    Books t' strong leases arcs := by
  refine h.recount hid h.leased ?_
  intro id sl' hsl'
  have heq := hleases id
  rw [hsl', Option.map_some] at heq
  obtain ⟨sl, hsl, hl⟩ := Option.map_eq_some_iff.mp heq.symm
  rw [← hl]
  exact h.counted id sl hsl

/-- Another counter of a slot is written. -/
lemma set (h : Books t strong leases arcs) {id : NodeId} {sl : Slot N} (hs : t.slot id = some sl)
    {c : Counter} (hc : c ≠ .leases) (v : ℕ) :
    Books (t.set id (sl.setCounter v c)) strong leases arcs := by
  refine h.congr (sameIdentity_set hs (by simp) (by simp)) ?_
  intro i
  rw [slot_set]
  split
  · next hi =>
    have hsame : (sl.setCounter v c).leases = sl.leases := by
      cases c with
      | leases => exact absurd rfl hc
      | _ => rfl
    rw [hi, hs, Option.map_some, Option.map_some, hsame]
  · rfl

lemma incr (h : Books t strong leases arcs) {c : Counter} (hc : c ≠ .leases) {id : NodeId}
    {r : Option (Slot N)} (hi : t.incr c id = some (r, t')) : Books t' strong leases arcs := by
  rcases incr_cases hi with ⟨_, _, rfl⟩ | ⟨sl, _, hs, rfl⟩
  · exact h
  · exact h.set hs hc _

lemma lower (h : Books t strong leases arcs) {c : Counter} (hc : c ≠ .leases) (n : ℕ)
    (id : NodeId) : Books (t.lower c n id) strong leases arcs := by
  unfold NodeTable.lower
  split
  · next sl hs => exact h.set hs hc _
  · exact h

lemma reparent (h : Books t strong leases arcs) (id newParent : NodeId) :
    Books (t.reparent id newParent) strong leases arcs := by
  unfold NodeTable.reparent
  split
  · next sl hs =>
    refine h.congr (sameIdentity_set hs rfl rfl) ?_
    intro i
    rw [slot_set]
    split
    · next hi =>
      rw [hi, hs]
      rfl
    · rfl
  · exact h

/-- The leases of one slot change. -/
lemma setLeases (h : Books t strong leases arcs) {id : NodeId} {sl : Slot N}
    (hs : t.slot id = some sl) {v : ℕ}
    (hleased : ∀ r ∈ leases', r ∈ leases ∨ r = ⟨id, sl.record.addr⟩)
    (hcount : (leases'.map Lease.id).count id = v)
    (hothers : ∀ i, i ≠ id → (leases'.map Lease.id).count i = (leases.map Lease.id).count i) :
    Books (t.set id (sl.setCounter v .leases)) strong leases' arcs := by
  refine h.recount (sameIdentity_set hs (by simp) (by simp)) ?_ ?_
  · intro r hr
    rcases hleased r hr with hr | rfl
    · exact h.leased r hr
    · exact ⟨sl, hs, rfl⟩
  · intro i sl' hs'
    rw [slot_set] at hs'
    split at hs'
    · next hi =>
      obtain rfl := Option.some.inj hs'
      rw [hi, hcount]
      rfl
    · next hi => rw [hothers i hi, h.counted i sl' hs']

/-- One more `Arc` of the record of a live slot. -/
lemma share (h : Books t strong leases arcs) {id : NodeId} {sl : Slot N}
    (hs : t.slot id = some sl) :
    Books t (Function.update strong sl.record.addr (strong sl.record.addr + 1)) leases
      (sl.record.addr ::ₘ arcs) where
  consistent := h.consistent
  leased := h.leased
  counted := h.counted
  shared := by
    intro addr
    rw [Multiset.count_cons]
    by_cases ha : addr = sl.record.addr
    · rw [ha, Function.update_self, if_pos rfl, h.shared, Nat.add_assoc]
    · rw [Function.update_of_ne ha, if_neg ha, h.shared, Nat.add_zero]
  fresh := by
    intro addr hlt
    have hne : addr ≠ sl.record.addr := by
      rintro rfl
      exact absurd (h.addr_le hs) (Nat.not_le.mpr hlt)
    rw [Function.update_of_ne hne]
    exact h.fresh addr hlt

/-- `Cx::get`: one more lease of the slot and one more `Arc` of its record. -/
lemma get (h : Books t strong leases arcs) {id : NodeId} {r : NodeRef N}
    (hg : t.get id = some (some r, t')) :
    Books t' (Function.update strong r.record.addr (strong r.record.addr + 1))
      (⟨id, r.record.addr⟩ ::ₘ leases) (r.record.addr ::ₘ arcs) := by
  obtain ⟨⟨o, t₁⟩, hi, heq⟩ := Option.map_eq_some_iff.mp hg
  obtain ⟨ho, rfl⟩ := Prod.mk.inj heq
  rcases incr_cases hi with ⟨rfl, _, _⟩ | ⟨sl, rfl, hs, rfl⟩
  · cases ho
  obtain rfl := Option.some.inj ho
  refine (h.share hs).setLeases hs ?_ ?_ ?_
  · intro r hr
    exact (Multiset.mem_cons.mp hr).symm
  · rw [Multiset.map_cons, Multiset.count_cons_self]
    exact congrArg (· + 1) (h.counted id sl hs).symm
  · intro i hi
    rw [Multiset.map_cons, Multiset.count_cons_of_ne hi]

/-- `NodeRef::drop`: the slot has the record of the lease, and loses one lease. -/
lemma giveBack {r : Lease} (h : Books t strong (r ::ₘ leases) arcs) :
    Books (t.giveBack r) strong leases arcs ∧
      ∀ sl, (t.giveBack r).slot r.id = some sl → sl.record.addr = r.addr := by
  obtain ⟨sl, hs, haddr⟩ := h.leased r (Multiset.mem_cons_self r leases)
  have heq : t.giveBack r = t.set r.id (sl.setCounter (sl.leases - 1) .leases) := by
    unfold NodeTable.giveBack NodeTable.lower
    simp only [hs, haddr, if_true]
    rfl
  have hcount := h.counted r.id sl hs
  rw [Multiset.map_cons, Multiset.count_cons_self] at hcount
  rw [heq]
  constructor
  · refine h.setLeases hs ?_ ?_ ?_
    · exact fun r' hr' => Or.inl (Multiset.mem_cons_of_mem hr')
    · rw [hcount, Nat.add_sub_cancel]
    · intro i hi
      rw [Multiset.map_cons, Multiset.count_cons_of_ne hi]
  · intro sl' hs'
    rw [slot_set, if_pos rfl] at hs'
    rw [← Option.some.inj hs', Slot.setCounter_record, haddr]

/-- A slot is reclaimed: its `Arc` is outside of the table then. -/
lemma maybeDrop (h : Books t strong leases arcs) {id : NodeId} {sl : Slot N}
    (hs : t.slot id = some sl) (hd : sl.droppable = true) :
    Books (t.maybeDrop id) strong leases (sl.record.addr ::ₘ arcs) := by
  have hmap : (t.maybeDrop id).map = t.map.erase id := by
    unfold NodeTable.maybeDrop
    simp only [hs, hd, if_true]
  have hissued : (t.maybeDrop id).issued = t.issued := by
    unfold NodeTable.maybeDrop
    simp only [hs, hd, if_true]
  have hnone : (leases.map Lease.id).count id = 0 := by
    rw [← h.counted id sl hs]
    exact Slot.droppable_iff.mp hd .leases
  refine ⟨h.consistent.maybeDrop id, ?_, ?_, ?_, ?_⟩
  · intro r hr
    obtain ⟨sl', hs', haddr⟩ := h.leased r hr
    have hne : r.id ≠ id := by
      rintro rfl
      exact Multiset.count_eq_zero.mp hnone (Multiset.mem_map_of_mem Lease.id hr)
    exact ⟨sl', by rw [slot_maybeDrop_ne t hne, hs'], haddr⟩
  · exact fun i sl' hs' => h.counted i sl' (slot_of_slot_maybeDrop hs')
  · intro addr
    have herase := BTreeMap.countWhere_erase (m := t.map) (a := id) (v := sl) hs
      fun _ sl => sl.record.addr == addr
    rw [h.shared, sharing, sharing, hmap, ← herase, Multiset.count_cons]
    by_cases ha : addr = sl.record.addr
    · simp only [ha, beq_self_eq_true, if_true]
      omega
    · have hfalse : (sl.record.addr == addr) = false := beq_false_of_ne fun heq => ha heq.symm
      simp only [hfalse, if_neg ha, Bool.false_eq_true, if_false, Nat.add_zero]
  · rw [hissued]
    exact h.fresh

/-- `Cx::insert`: a record that only its slot has. -/
lemma insert (h : Books t strong leases arcs) {payload : N} {parent id : NodeId}
    (hi : t.insert payload parent = some (id, t')) :
    Books t' (Function.update strong (t.issued.length + 1) 1) leases arcs := by
  have hcons := h.consistent.insert hi
  obtain ⟨gen, t₁, ha, rfl⟩ := insert_cases hi
  obtain ⟨hdead, _⟩ := h.consistent.alloc ha
  have hmap₁ : t₁.map = t.map := by
    rcases alloc_cases ha with ⟨_, _, rfl⟩ | ⟨_, _, _, rfl⟩
    · rfl
    · rfl
  have hslot : ∀ i, ({ t₁.set id (t.freshSlot payload gen parent) with
      issued := ⟨id, gen, t.issued.length + 1⟩ :: t.issued } : NodeTable N).slot i =
      if i = id then some (t.freshSlot payload gen parent) else t.slot i := by
    intro i
    have hs := slot_set t₁ id i (t.freshSlot payload gen parent)
    rw [slot_alloc ha] at hs
    exact hs
  have hne : ∀ r ∈ leases, r.id ≠ id := by
    rintro r hr rfl
    obtain ⟨sl, hsl, _⟩ := h.leased r hr
    rw [hdead] at hsl
    cases hsl
  refine ⟨hcons, ?_, ?_, ?_, ?_⟩
  · intro r hr
    rw [hslot, if_neg (hne r hr)]
    exact h.leased r hr
  · intro i sl hsl
    rw [hslot] at hsl
    split at hsl
    · next heq =>
      obtain rfl := Option.some.inj hsl
      refine (Multiset.count_eq_zero.mpr ?_).symm
      intro hmem
      obtain ⟨r, hr, hrid⟩ := Multiset.mem_map.mp hmem
      exact hne r hr (hrid.trans heq)
    · exact h.counted i sl hsl
  · intro addr
    have hinsert := BTreeMap.countWhere_insert (m := t.map) (a := id) hdead
      (t.freshSlot payload gen parent) fun _ sl => sl.record.addr == addr
    have hsharing : sharing ({ t₁.set id (t.freshSlot payload gen parent) with
        issued := ⟨id, gen, t.issued.length + 1⟩ :: t.issued } : NodeTable N) addr =
        t.sharing addr + if (t.issued.length + 1 == addr) then 1 else 0 := by
      unfold sharing
      rw [← hmap₁] at hinsert ⊢
      exact hinsert
    rw [hsharing]
    have hshared := h.shared addr
    by_cases haddr : addr = t.issued.length + 1
    · subst haddr
      have hzero := h.fresh _ (Nat.lt_succ_self _)
      rw [hzero] at hshared
      simp only [Function.update_self, beq_self_eq_true, if_true]
      omega
    · have hfalse : (t.issued.length + 1 == addr) = false :=
        beq_false_of_ne fun heq => haddr heq.symm
      simp only [Function.update_of_ne haddr, hfalse, hshared, Bool.false_eq_true, if_false,
        Nat.add_zero]
  · intro addr hlt
    have hlt' : t.issued.length + 1 < addr := hlt
    rw [Function.update_of_ne (by omega)]
    exact h.fresh addr (by omega)

/-- The drop of an `Arc`. -/
lemma dropArc {addr : ℕ} (h : Books t strong leases (addr ::ₘ arcs)) :
    Books t (Function.update strong addr (strong addr - 1)) leases arcs where
  consistent := h.consistent
  leased := h.leased
  counted := h.counted
  shared := by
    intro a
    have hshared := h.shared a
    rw [Multiset.count_cons] at hshared
    by_cases ha : a = addr
    · subst ha
      rw [if_pos rfl] at hshared
      rw [Function.update_self]
      omega
    · rw [Function.update_of_ne ha, hshared, if_neg ha, Nat.add_zero]
  fresh := by
    intro a hlt
    by_cases ha : a = addr
    · subst ha
      rw [Function.update_self, h.fresh a hlt]
    · rw [Function.update_of_ne ha]
      exact h.fresh a hlt

end Books

end TypedFuse
