import TypedFuse.Core.Runtime

/-!
# Reference accounting

What the counters of the inode table count.  Each of the structures below relates one counter to
the history: the live `NodeRef`s, the lookups that are out, the handles that are registered or
about to be, and the node identifiers between a callback and `entry_for`.  They take the part of
the history that belongs to running threads from the tokens of these threads.

All of them survive a critical section for the same two reasons.  A section changes at most one
counter of one inode, and it never replaces a live slot (`Kept`); so a slot with a counter that
the section leaves positive is still there and is still the same node.
-/

namespace TypedFuse

namespace NodeTable

variable {N : Type}

/-- An inode that is live before and after is the same node. -/
def Kept (t t' : NodeTable N) : Prop :=
  ∀ i s s', t.slot i = some s → t'.slot i = some s' →
    s'.record = s.record ∧ s'.generation = s.generation

lemma Kept.refl (t : NodeTable N) : Kept t t := by
  intro i s s' hs hs'
  obtain rfl := Option.some.inj (hs.symm.trans hs')
  exact ⟨rfl, rfl⟩

lemma Kept.incr {t t' : NodeTable N} {c : Counter} {id : NodeId} {r : Option (Slot N)}
    (h : t.incr c id = some (r, t')) : Kept t t' := by
  intro i s s' hs hs'
  rw [slot_incr h, hs, Option.map_some] at hs'
  obtain rfl := Option.some.inj hs'
  split <;> simp

lemma Kept.decr (t : NodeTable N) (c : Counter) (n : ℕ) (id : NodeId) :
    Kept t (t.decr c n id) := by
  intro i s s' hs hs'
  obtain ⟨s₀, hs₀, rfl⟩ := slot_of_slot_decr hs'
  obtain rfl := Option.some.inj (hs.symm.trans hs₀)
  split <;> simp

lemma Kept.insert {t t' : NodeTable N} (hwf : t.WF) {payload : N} {parent id : NodeId}
    (h : t.insert payload parent = some (id, t')) : Kept t t' := by
  intro i s s' hs hs'
  obtain ⟨gen, hslot⟩ := slot_insert h
  have hdead := hwf.insert_dead h
  have hne : i ≠ id := by
    rintro rfl
    rw [hs] at hdead
    cases hdead
  rw [hslot, if_neg hne, hs] at hs'
  obtain rfl := Option.some.inj hs'
  exact ⟨rfl, rfl⟩

lemma Kept.reparent (t : NodeTable N) (id newParent : NodeId) :
    Kept t (t.reparent id newParent) := by
  intro i s s' hs hs'
  rw [slot_reparent, hs, Option.map_some] at hs'
  obtain rfl := Option.some.inj hs'
  split <;> exact ⟨rfl, rfl⟩

/-- `Cx::insert` counts a link and nothing else. -/
lemma count_insert {t t' : NodeTable N} (hwf : t.WF) {payload : N} {parent id : NodeId}
    (h : t.insert payload parent = some (id, t')) {c : Counter} (hc : c ≠ .links) (i : NodeId) :
    t'.count c i = t.count c i := by
  obtain ⟨gen, hslot⟩ := slot_insert h
  have hdead := hwf.insert_dead h
  by_cases hi : i = id
  · subst hi
    have hnew := hslot i
    rw [if_pos rfl] at hnew
    rw [count_of_slot hnew, count_of_dead hdead]
    cases c with
    | links => exact absurd rfl hc
    | lookups => rfl
    | opens => rfl
    | leases => rfl
  · have hold := hslot i
    rw [if_neg hi] at hold
    unfold count
    rw [hold]

end NodeTable

open NodeTable

variable {N : Type}

/-! ## Leases -/

/-- The identity of a slot, as a lease on it records it: inode, record and generation. -/
def Slot.leased (s : Slot N) (id : NodeId) : ℕ × ℕ × ℕ :=
  (id, s.record.addr, s.generation)

/-- The `leases` counter counts the live `NodeRef`s.  `refs` are the references that running
threads of the runtime own, with the generation of the slot. -/
structure Leased (t : NodeTable N) (h : History) (refs : Multiset (ℕ × ℕ × ℕ)) : Prop where
  /-- The references of the runtime are those of its running threads. -/
  rtRefs : h.rtRefs = refs.map fun x => (x.1, x.2.1)
  /-- A reference of a running thread keeps the slot it was taken for. -/
  rtLive : ∀ x ∈ refs, ∃ s, t.slot x.1 = some s ∧ s.leased x.1 = x
  /-- A reference of the filesystem keeps the slot it was taken for. -/
  fsLive : ∀ x ∈ h.fsRefs, ∃ s, t.slot x.1 = some s ∧ s.record.addr = x.2
  /-- The counter. -/
  count : ∀ i, t.count .leases i = (h.rtRefs + h.fsRefs).countP fun x => x.1 = i

namespace Leased

variable {t t' : NodeTable N} {h h' : History} {refs : Multiset (ℕ × ℕ × ℕ)}

lemma count_pos_of_rt (hl : Leased t h refs) {x : ℕ × ℕ × ℕ} (hx : x ∈ refs) :
    0 < t.count .leases x.1 := by
  rw [hl.count, Multiset.countP_pos]
  refine ⟨(x.1, x.2.1), ?_, rfl⟩
  rw [hl.rtRefs]
  exact Multiset.mem_add.mpr (Or.inl (Multiset.mem_map_of_mem _ hx))

lemma count_pos_of_fs (hl : Leased t h refs) {x : ℕ × ℕ} (hx : x ∈ h.fsRefs) :
    0 < t.count .leases x.1 := by
  rw [hl.count, Multiset.countP_pos]
  exact ⟨x, Multiset.mem_add.mpr (Or.inr hx), rfl⟩

/-- A section that leaves the lease counters alone keeps all references. -/
lemma congr (hl : Leased t h refs) (hkept : Kept t t')
    (hcount : ∀ i, t'.count .leases i = t.count .leases i) (hrt : h'.rtRefs = h.rtRefs)
    (hfs : h'.fsRefs = h.fsRefs) : Leased t' h' refs where
  rtRefs := hrt.trans hl.rtRefs
  rtLive := by
    intro x hx
    obtain ⟨s, hs, hsx⟩ := hl.rtLive x hx
    obtain ⟨s', hs'⟩ := slot_of_count_pos (hcount x.1 ▸ hl.count_pos_of_rt hx)
    obtain ⟨hrec, hgen⟩ := hkept x.1 s s' hs hs'
    refine ⟨s', hs', ?_⟩
    rw [← hsx, Slot.leased, Slot.leased, hrec, hgen]
  fsLive := by
    intro x hx
    rw [hfs] at hx
    obtain ⟨s, hs, hsx⟩ := hl.fsLive x hx
    obtain ⟨s', hs'⟩ := slot_of_count_pos (hcount x.1 ▸ hl.count_pos_of_fs hx)
    obtain ⟨hrec, _⟩ := hkept x.1 s s' hs hs'
    exact ⟨s', hs', by rw [hrec, hsx]⟩
  count := by
    intro i
    rw [hcount, hl.count, hrt, hfs]

/-- The references that already exist survive the lease of one more. -/
private lemma live_of_incr {id : NodeId} {r : Option (Slot N)}
    (hi : t.incr .leases id = some (r, t')) {i : NodeId} {s : Slot N} (hs : t.slot i = some s) :
    ∃ s', t'.slot i = some s' ∧ s'.record = s.record ∧ s'.generation = s.generation := by
  refine ⟨_, by rw [slot_incr hi, hs]; rfl, ?_, ?_⟩ <;> split <;> simp

/-- What `Cx::get` answers. -/
lemma get_cases {id : NodeId} {r : Option (NodeRef N)} (hg : t.get id = some (r, t')) :
    (r = none ∧ t.slot id = none ∧ t' = t) ∨
      ∃ s, r = some ⟨id, s.record⟩ ∧ t.slot id = some s ∧
        t.incr .leases id = some (some s, t') := by
  unfold NodeTable.get at hg
  obtain ⟨⟨o, t₁⟩, hi, heq⟩ := Option.map_eq_some_iff.mp hg
  obtain ⟨rfl, rfl⟩ := Prod.mk.inj heq
  rcases incr_cases hi with ⟨rfl, hdead, rfl⟩ | ⟨s, rfl, hs, _⟩
  · exact Or.inl ⟨rfl, hdead, rfl⟩
  · exact Or.inr ⟨s, rfl, hs, hi⟩

private lemma count_add_ref (hl : Leased t h refs) {id : NodeId} {s : Slot N}
    (hi : t.incr .leases id = some (some s, t')) {a : ℕ} {m : Multiset (ℕ × ℕ)}
    (hm : m = (id, a) ::ₘ (h.rtRefs + h.fsRefs)) (i : NodeId) :
    t'.count .leases i = m.countP fun x => x.1 = i := by
  rw [count_incr hi, hl.count, hm, Multiset.countP_cons]
  by_cases hid : i = id
  · simp [hid]
  · simp [hid, Ne.symm hid]

/-- `Cx::get` by the runtime adds one reference. -/
lemma getRt (hl : Leased t h refs) {id : NodeId} {s : Slot N} (hs : t.slot id = some s)
    (hi : t.incr .leases id = some (some s, t'))
    (hrt : h'.rtRefs = (id, s.record.addr) ::ₘ h.rtRefs) (hfs : h'.fsRefs = h.fsRefs) :
    Leased t' h' (s.leased id ::ₘ refs) where
  rtRefs := by
    rw [hrt, hl.rtRefs, Multiset.map_cons]
    rfl
  rtLive := by
    intro x hx
    rcases Multiset.mem_cons.mp hx with rfl | hx
    · obtain ⟨s', hs', hrec, hgen⟩ := live_of_incr hi hs
      exact ⟨s', hs', by rw [Slot.leased, Slot.leased, hrec, hgen]⟩
    · obtain ⟨s₀, hs₀, hsx⟩ := hl.rtLive x hx
      obtain ⟨s', hs', hrec, hgen⟩ := live_of_incr hi hs₀
      exact ⟨s', hs', by rw [← hsx, Slot.leased, Slot.leased, hrec, hgen]⟩
  fsLive := by
    intro x hx
    rw [hfs] at hx
    obtain ⟨s₀, hs₀, hsx⟩ := hl.fsLive x hx
    obtain ⟨s', hs', hrec, _⟩ := live_of_incr hi hs₀
    exact ⟨s', hs', by rw [hrec, hsx]⟩
  count := hl.count_add_ref hi (by rw [hrt, hfs, Multiset.cons_add])

/-- `Cx::get` by the filesystem adds one reference. -/
lemma getFs (hl : Leased t h refs) {id : NodeId} {s : Slot N} (hs : t.slot id = some s)
    (hi : t.incr .leases id = some (some s, t')) (hrt : h'.rtRefs = h.rtRefs)
    (hfs : h'.fsRefs = (id, s.record.addr) ::ₘ h.fsRefs) : Leased t' h' refs where
  rtRefs := hrt.trans hl.rtRefs
  rtLive := by
    intro x hx
    obtain ⟨s₀, hs₀, hsx⟩ := hl.rtLive x hx
    obtain ⟨s', hs', hrec, hgen⟩ := live_of_incr hi hs₀
    exact ⟨s', hs', by rw [← hsx, Slot.leased, Slot.leased, hrec, hgen]⟩
  fsLive := by
    intro x hx
    rw [hfs] at hx
    rcases Multiset.mem_cons.mp hx with rfl | hx
    · obtain ⟨s', hs', hrec, _⟩ := live_of_incr hi hs
      exact ⟨s', hs', by rw [hrec]⟩
    · obtain ⟨s₀, hs₀, hsx⟩ := hl.fsLive x hx
      obtain ⟨s', hs', hrec, _⟩ := live_of_incr hi hs₀
      exact ⟨s', hs', by rw [hrec, hsx]⟩
  count := hl.count_add_ref hi (by rw [hrt, hfs, Multiset.add_cons])

private lemma count_erase_ref (hl : Leased t h refs) {id a : ℕ} {m : Multiset (ℕ × ℕ)}
    (hm : h.rtRefs + h.fsRefs = (id, a) ::ₘ m) (i : NodeId) :
    (t.decr .leases 1 id).count .leases i = m.countP fun x => x.1 = i := by
  rw [count_decr, hl.count, hm, Multiset.countP_cons]
  by_cases hid : i = id
  · simp [hid]
  · simp [hid, Ne.symm hid]

/-- A reference that is still there after a drop keeps its slot. -/
private lemma live_of_drop (hl : Leased t h refs) {id a : ℕ} {m : Multiset (ℕ × ℕ)}
    (hm : h.rtRefs + h.fsRefs = (id, a) ::ₘ m) {x : ℕ × ℕ} (hx : x ∈ m) {s : Slot N}
    (hs : t.slot x.1 = some s) :
    ∃ s', (t.decr .leases 1 id).slot x.1 = some s' ∧ s'.record = s.record ∧
      s'.generation = s.generation := by
  have hpos : 0 < (t.decr .leases 1 id).count .leases x.1 := by
    rw [hl.count_erase_ref hm, Multiset.countP_pos]
    exact ⟨x, hx, rfl⟩
  obtain ⟨s', hs'⟩ := slot_of_count_pos hpos
  exact ⟨s', hs', Kept.decr t .leases 1 id x.1 s s' hs hs'⟩

/-- Dropping a `NodeRef` of the runtime takes one reference. -/
lemma dropRt {id a gen : ℕ} (hl : Leased t h ((id, a, gen) ::ₘ refs))
    (hrt : h'.rtRefs = h.rtRefs.erase (id, a)) (hfs : h'.fsRefs = h.fsRefs) :
    Leased (t.decr .leases 1 id) h' refs := by
  have hrefs : h.rtRefs = (id, a) ::ₘ refs.map fun x => (x.1, x.2.1) := by
    rw [hl.rtRefs, Multiset.map_cons]
  have hrt' : h'.rtRefs = refs.map fun x => (x.1, x.2.1) := by
    rw [hrt, hrefs, Multiset.erase_cons_head]
  have hm : h.rtRefs + h.fsRefs = (id, a) ::ₘ (h'.rtRefs + h'.fsRefs) := by
    rw [hrefs, hrt', hfs, Multiset.cons_add]
  refine ⟨hrt', ?_, ?_, hl.count_erase_ref hm⟩
  · intro x hx
    obtain ⟨s, hs, hsx⟩ := hl.rtLive x (Multiset.mem_cons_of_mem hx)
    have hmem : (x.1, x.2.1) ∈ h'.rtRefs + h'.fsRefs := by
      rw [hrt']
      exact Multiset.mem_add.mpr (Or.inl (Multiset.mem_map_of_mem _ hx))
    obtain ⟨s', hs', hrec, hgen⟩ := hl.live_of_drop hm hmem hs
    exact ⟨s', hs', by rw [← hsx, Slot.leased, Slot.leased, hrec, hgen]⟩
  · intro x hx
    have hmem : x ∈ h'.rtRefs + h'.fsRefs := Multiset.mem_add.mpr (Or.inr hx)
    rw [hfs] at hx
    obtain ⟨s, hs, hsx⟩ := hl.fsLive x hx
    obtain ⟨s', hs', hrec, _⟩ := hl.live_of_drop hm hmem hs
    exact ⟨s', hs', by rw [hrec, hsx]⟩

/-- Dropping a `NodeRef` of the filesystem takes one reference. -/
lemma dropFs (hl : Leased t h refs) {id a : ℕ} (hmem : (id, a) ∈ h.fsRefs)
    (hrt : h'.rtRefs = h.rtRefs) (hfs : h'.fsRefs = h.fsRefs.erase (id, a)) :
    Leased (t.decr .leases 1 id) h' refs := by
  have hm : h.rtRefs + h.fsRefs = (id, a) ::ₘ (h'.rtRefs + h'.fsRefs) := by
    rw [hrt, hfs, ← Multiset.add_cons, Multiset.cons_erase hmem]
  refine ⟨hrt.trans hl.rtRefs, ?_, ?_, hl.count_erase_ref hm⟩
  · intro x hx
    obtain ⟨s, hs, hsx⟩ := hl.rtLive x hx
    have hmem' : (x.1, x.2.1) ∈ h'.rtRefs + h'.fsRefs := by
      rw [hrt, hl.rtRefs]
      exact Multiset.mem_add.mpr (Or.inl (Multiset.mem_map_of_mem _ hx))
    obtain ⟨s', hs', hrec, hgen⟩ := hl.live_of_drop hm hmem' hs
    exact ⟨s', hs', by rw [← hsx, Slot.leased, Slot.leased, hrec, hgen]⟩
  · intro x hx
    have hmem' : x ∈ h'.rtRefs + h'.fsRefs := Multiset.mem_add.mpr (Or.inr hx)
    have hx' : x ∈ h.fsRefs := by
      rw [hfs] at hx
      exact Multiset.mem_of_mem_erase hx
    obtain ⟨s, hs, hsx⟩ := hl.fsLive x hx'
    obtain ⟨s', hs', hrec, _⟩ := hl.live_of_drop hm hmem' hs
    exact ⟨s', hs', by rw [hrec, hsx]⟩

end Leased

/-! ## Lookups -/

/-- The `lookups` counter counts the lookups that are out: the kernel holds them, unwinding gave
them up, or running threads have counted or are about to forget them (`out`).  This needs a kernel
that forgets only what it holds (`honest`). -/
structure LookedUp (honest noPanic : Prop) (t : NodeTable N) (h : History)
    (out : Multiset (ℕ × ℕ)) : Prop where
  /-- The lookups in the hands of running threads. -/
  pending : h.pending = out
  /-- The counter. -/
  count : honest → ∀ i,
    t.count .lookups i = h.held.count i + h.leaked.count i + (out.map Prod.snd).count i
  /-- Every granted lookup was forgotten or is out. -/
  granted : honest → h.granted = h.forgotten + h.held + h.leaked + out.map Prod.snd
  /-- Only unwinding gives lookups up. -/
  leaked : honest → noPanic → h.leaked = 0

namespace LookedUp

variable {honest noPanic : Prop} {t t' : NodeTable N} {h h' : History} {out : Multiset (ℕ × ℕ)}

lemma congr (hl : LookedUp honest noPanic t h out)
    (hcount : ∀ i, t'.count .lookups i = t.count .lookups i) (hp : h'.pending = h.pending)
    (hh : h'.held = h.held) (hk : h'.leaked = h.leaked) (hg : h'.granted = h.granted)
    (hf : h'.forgotten = h.forgotten) : LookedUp honest noPanic t' h' out where
  pending := hp.trans hl.pending
  count := by
    intro hon i
    rw [hcount, hl.count hon, hh, hk]
  granted := by
    intro hon
    rw [hg, hl.granted hon, hf, hh, hk]
  leaked := by
    intro hon hnp
    rw [hk, hl.leaked hon hnp]

/-- Counting a lookup hands it to the thread. -/
lemma grant (hl : LookedUp honest noPanic t h out) {n id : ℕ} {s : Slot N}
    (hi : t.incr .lookups id = some (some s, t')) (hp : h'.pending = (n, id) ::ₘ h.pending)
    (hg : h'.granted = id ::ₘ h.granted) (hh : h'.held = h.held) (hk : h'.leaked = h.leaked)
    (hf : h'.forgotten = h.forgotten) : LookedUp honest noPanic t' h' ((n, id) ::ₘ out) where
  pending := by rw [hp, hl.pending]
  count := by
    intro hon i
    rw [count_incr hi, hl.count hon, hh, hk, Multiset.map_cons, Multiset.count_cons]
    by_cases hid : i = id
    · simp [hid]
      omega
    · simp [hid]
  granted := by
    intro hon
    rw [hg, hl.granted hon, hf, hh, hk, Multiset.map_cons, Multiset.add_cons]
  leaked := by
    intro hon hnp
    rw [hk, hl.leaked hon hnp]

/-- Forgetting takes the lookups from the thread. -/
lemma forget {n ino m : ℕ}
    (hl : LookedUp honest noPanic t h (Multiset.replicate m (n, ino) + out))
    (hp : h'.pending = h.pending - Multiset.replicate m (n, ino))
    (hf : h'.forgotten = Multiset.replicate m ino + h.forgotten) (hg : h'.granted = h.granted)
    (hh : h'.held = h.held) (hk : h'.leaked = h.leaked) :
    LookedUp honest noPanic (t.decr .lookups m ino) h' out where
  pending := by rw [hp, hl.pending, add_tsub_cancel_left]
  count := by
    intro hon i
    have hc := hl.count hon i
    rw [Multiset.map_add, Multiset.map_replicate, Multiset.count_add,
      Multiset.count_replicate] at hc
    rw [count_decr, hc, hh, hk]
    by_cases hid : i = ino
    · simp only [hid, and_self, if_true]
      omega
    · simp only [hid, Ne.symm hid, and_false, if_false]
      omega
  granted := by
    intro hon
    rw [hg, hl.granted hon, hf, hh, hk, Multiset.map_add, Multiset.map_replicate]
    abel
  leaked := by
    intro hon hnp
    rw [hk, hl.leaked hon hnp]

/-- Unwinding gives up lookups of the thread. -/
lemma leak {n : ℕ} {ids : List NodeId} (hstrict : ¬(honest ∧ noPanic))
    (hl : LookedUp honest noPanic t h (Multiset.map (Prod.mk n) ↑ids + out))
    (hp : h'.pending = h.pending - Multiset.map (Prod.mk n) ↑ids)
    (hk : h'.leaked = ↑ids + h.leaked) (hf : h'.forgotten = h.forgotten)
    (hg : h'.granted = h.granted) (hh : h'.held = h.held) : LookedUp honest noPanic t h' out where
  pending := by rw [hp, hl.pending, add_tsub_cancel_left]
  count := by
    intro hon i
    have hc := hl.count hon i
    rw [Multiset.map_add, Multiset.map_map, Multiset.count_add] at hc
    have hids : Multiset.map (Prod.snd ∘ Prod.mk n) (ids : Multiset ℕ) = ids :=
      Multiset.map_id _
    rw [hids] at hc
    rw [hc, hh, hk, Multiset.count_add]
    omega
  granted := by
    intro hon
    have hids : Multiset.map (Prod.snd ∘ Prod.mk n) (ids : Multiset ℕ) = ids :=
      Multiset.map_id _
    rw [hg, hl.granted hon, hf, hh, hk, Multiset.map_add, Multiset.map_map, hids]
    abel
  leaked := fun hon hnp => absurd ⟨hon, hnp⟩ hstrict

/-- The kernel sends lookups back. -/
lemma issue (hl : LookedUp honest noPanic t h out) {n ino m : ℕ}
    (hle : honest → m ≤ h.held.count ino)
    (hp : h'.pending = Multiset.replicate m (n, ino) + h.pending)
    (hh : h'.held = h.held - Multiset.replicate m ino) (hk : h'.leaked = h.leaked)
    (hg : h'.granted = h.granted) (hf : h'.forgotten = h.forgotten) :
    LookedUp honest noPanic t h' (Multiset.replicate m (n, ino) + out) where
  pending := by rw [hp, hl.pending]
  count := by
    intro hon i
    have hm := hle hon
    rw [hl.count hon, hh, hk, Multiset.map_add, Multiset.map_replicate, Multiset.count_add,
      Multiset.count_sub, Multiset.count_replicate]
    by_cases hid : ino = i
    · subst hid
      simp only [if_true]
      omega
    · simp only [hid, if_false]
      omega
  granted := by
    intro hon
    have hsub : Multiset.replicate m ino ≤ h.held :=
      Multiset.le_count_iff_replicate_le.mp (hle hon)
    have hheld : h.held - Multiset.replicate m ino + Multiset.replicate m ino = h.held :=
      tsub_add_cancel_of_le hsub
    rw [hg, hl.granted hon, hf, hh, hk, Multiset.map_add, Multiset.map_replicate]
    generalize h.held - Multiset.replicate m ino = rest at hheld
    rw [← hheld]
    abel
  leaked := by
    intro hon hnp
    rw [hk, hl.leaked hon hnp]

/-- The kernel receives the lookups of an answer. -/
lemma answer {n : ℕ} {d : Multiset ℕ}
    (hl : LookedUp honest noPanic t h (d.map (Prod.mk n) + out))
    (hp : h'.pending = h.pending - d.map (Prod.mk n)) (hh : h'.held = d + h.held)
    (hk : h'.leaked = h.leaked) (hf : h'.forgotten = h.forgotten) (hg : h'.granted = h.granted) :
    LookedUp honest noPanic t h' out where
  pending := by rw [hp, hl.pending, add_tsub_cancel_left]
  count := by
    intro hon i
    have hc := hl.count hon i
    have hd : Multiset.map (Prod.snd ∘ Prod.mk n) d = d := Multiset.map_id _
    rw [Multiset.map_add, Multiset.map_map, hd, Multiset.count_add] at hc
    rw [hc, hh, hk, Multiset.count_add]
    omega
  granted := by
    intro hon
    have hd : Multiset.map (Prod.snd ∘ Prod.mk n) d = d := Multiset.map_id _
    rw [hg, hl.granted hon, hf, hh, hk, Multiset.map_add, Multiset.map_map, hd]
    abel
  leaked := by
    intro hon hnp
    rw [hk, hl.leaked hon hnp]

/-- A lookup in the hands of a thread keeps the node, if the kernel is honest. -/
lemma live (hl : LookedUp honest noPanic t h out) (hon : honest) {n id : ℕ}
    (hm : (n, id) ∈ out) :
    ∃ s, t.slot id = some s := by
  refine slot_of_count_pos (c := .lookups) ?_
  rw [hl.count hon]
  have hpos : 0 < (out.map Prod.snd).count id :=
    Multiset.count_pos.mpr (Multiset.mem_map_of_mem Prod.snd hm)
  omega

end LookedUp

/-! ## Opens -/

/-- The `opens` counter counts the registered handles, those that running threads are about to
register and those they have removed without uncounting them yet. -/
structure Opens {P : HandleKind → Type} (t : NodeTable N) (hs : Handles P) (h : History)
    (op cl : Multiset ℕ) : Prop where
  /-- The handles that running threads are about to register. -/
  opening : h.opening = op
  /-- The handles that running threads have removed. -/
  closing : h.closing = cl
  /-- The counter. -/
  count : ∀ i, t.count .opens i = hs.registered i + op.count i + cl.count i

namespace Opens

variable {P : HandleKind → Type} {t t' : NodeTable N} {hs hs' : Handles P} {h h' : History}
  {op cl : Multiset ℕ}

lemma congr (ho : Opens t hs h op cl)
    (hcount : ∀ i, t'.count .opens i = t.count .opens i)
    (hreg : ∀ i, hs'.registered i = hs.registered i) (hop : h'.opening = h.opening)
    (hcl : h'.closing = h.closing) : Opens t' hs' h' op cl where
  opening := hop.trans ho.opening
  closing := hcl.trans ho.closing
  count := by
    intro i
    rw [hcount, hreg, ho.count]

/-- `add_open` on a live inode. -/
lemma addOpen (ho : Opens t hs h op cl) {ino : ℕ} {s : Slot N}
    (hi : t.incr .opens ino = some (some s, t')) (hop : h'.opening = ino ::ₘ h.opening)
    (hcl : h'.closing = h.closing) : Opens t' hs h' (ino ::ₘ op) cl where
  opening := by rw [hop, ho.opening]
  closing := hcl.trans ho.closing
  count := by
    intro i
    rw [count_incr hi, ho.count, Multiset.count_cons]
    by_cases hid : i = ino
    · simp [hid]
      omega
    · simp [hid]

/-- `remove_open`. -/
lemma removeOpen {ino : ℕ} (ho : Opens t hs h op (ino ::ₘ cl))
    (hop : h'.opening = h.opening) (hcl : h'.closing = h.closing.erase ino) :
    Opens (t.decr .opens 1 ino) hs h' op cl where
  opening := hop.trans ho.opening
  closing := by rw [hcl, ho.closing, Multiset.erase_cons_head]
  count := by
    intro i
    have hc := ho.count i
    rw [Multiset.count_cons] at hc
    rw [count_decr, hc]
    by_cases hid : i = ino
    · simp [hid]
    · simp [hid]

/-- A removed handle whose open is still counted keeps the node. -/
lemma live (ho : Opens t hs h op cl) {ino : ℕ} (hm : ino ∈ cl) :
    ∃ s, t.slot ino = some s := by
  refine slot_of_count_pos (c := .opens) ?_
  rw [ho.count]
  have hpos : 0 < cl.count ino := Multiset.count_pos.mpr hm
  omega

end Opens

/-! ## Resolved node identifiers -/

/-- The node identifiers between the return of a callback and the lease of `entry_for`, each with
what it denoted.  If no such number is issued again (`stable`), it still denotes that or is dead. -/
structure Resolved (stable : Prop) (t : NodeTable N) (h : History)
    (ids : Multiset (ℕ × Option (ℕ × ℕ))) : Prop where
  /-- The identifiers in the hands of running threads. -/
  resolving : h.resolving = ids.map Prod.fst
  /-- What they denote. -/
  same : stable → ∀ x ∈ ids, t.slot x.1 = none ∨ (t.slot x.1).map Slot.ident = x.2

namespace Resolved

variable {stable : Prop} {t t' : NodeTable N} {h h' : History}
  {ids : Multiset (ℕ × Option (ℕ × ℕ))}

/-- A section that issues no number that is being resolved. -/
lemma congr (hr : Resolved stable t h ids) (hkept : Kept t t')
    (hnew : stable → ∀ i ∈ h.resolving, t.slot i = none → t'.slot i = none)
    (hres : h'.resolving = h.resolving) : Resolved stable t' h' ids where
  resolving := hres.trans hr.resolving
  same := by
    intro hst x hx
    have hmem : x.1 ∈ h.resolving := by
      rw [hr.resolving]
      exact Multiset.mem_map_of_mem Prod.fst hx
    cases hs' : t'.slot x.1 with
    | none => exact Or.inl rfl
    | some s' =>
      right
      cases hs : t.slot x.1 with
      | none =>
        rw [hnew hst x.1 hmem hs] at hs'
        cases hs'
      | some s =>
        rcases hr.same hst x hx with hdead | hden
        · rw [hs] at hdead
          cases hdead
        · obtain ⟨hrec, hgen⟩ := hkept x.1 s s' hs hs'
          rw [← hden, hs, Option.map_some, Option.map_some, Slot.ident, Slot.ident, hrec, hgen]

end Resolved

end TypedFuse
