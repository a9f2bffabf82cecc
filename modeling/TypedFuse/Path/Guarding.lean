import TypedFuse.Path.Guards

/-!
# The instructions of the path adapter honour their contracts

One lemma for every instruction that touches a guard: it keeps the invariant in every frame and
yields the tokens that its contract promises.
-/

namespace TypedFuse

open Conc NodeTable TypedFuse.Runtime

variable {P : PathFilesystem} {exact : Prop} {n : ℕ}

/-- The key that a phase is about. -/
def NsPhase.key : NsPhase → Option ℕ
  | .keyed k => some k
  | .inserted k _ => some k
  | _ => none

namespace Keyed

variable {t t' : NodeTable PathNode} {ns ns' : Namespace}
  {phases phases' : Multiset (Namespace × NsPhase)}

/-- A change that leaves keys, nodes and the phases about keys alone. -/
lemma congr (h : Keyed t ns phases)
    (hslot : ∀ i sl', t'.slot i = some sl' →
      ∃ sl, t.slot i = some sl ∧ sl'.record = sl.record)
    (hkeys : ns'.keys = ns.keys) (hnext : ns'.nextKey = ns.nextKey)
    (hphase : ∀ ph : NsPhase, ph.key ≠ none →
      ((∃ x ∈ phases', x.2 = ph) ↔ ∃ x ∈ phases, x.2 = ph)) : Keyed t' ns' phases' := by
  have hid : ∀ k, ns'.idForNode k = ns.idForNode k := by
    intro k
    unfold Namespace.idForNode
    rw [hkeys]
  have hback : ∀ x ∈ phases', x.2.key ≠ none → ∃ y ∈ phases, y.2 = x.2 :=
    fun x hx hk => (hphase x.2 hk).mp ⟨x, hx, rfl⟩
  refine ⟨?_, ?_, ?_, ?_, ?_⟩
  · intro i sl' hsl'
    obtain ⟨sl, hsl, hrec⟩ := hslot i sl' hsl'
    rw [hrec, hid]
    rcases h.slotKey i sl hsl with hk | hk
    · exact Or.inl hk
    · exact Or.inr ((hphase (.inserted _ i) (Option.some_ne_none _)).mpr hk)
  · intro i sl' hsl'
    obtain ⟨sl, hsl, hrec⟩ := hslot i sl' hsl'
    rw [hrec, hnext]
    exact h.slotLt i sl hsl
  · intro k j hk
    rw [hid] at hk
    rw [hnext]
    exact h.keysLt k j hk
  · intro x hx k hxk
    obtain ⟨y, hy, hyx⟩ := hback x hx (by rw [hxk]; exact Option.some_ne_none k)
    obtain ⟨hlt, hnone, hne⟩ := h.keyed y hy k (hyx.trans hxk)
    refine ⟨hnext ▸ hlt, (hid k).trans hnone, ?_⟩
    intro i sl' hsl'
    obtain ⟨sl, hsl, hrec⟩ := hslot i sl' hsl'
    rw [hrec]
    exact hne i sl hsl
  · intro x hx k i hxk
    obtain ⟨y, hy, hyx⟩ := hback x hx (by rw [hxk]; exact Option.some_ne_none k)
    obtain ⟨hlt, hnone⟩ := h.inserted y hy k i (hyx.trans hxk)
    exact ⟨hnext ▸ hlt, (hid k).trans hnone⟩

/-- The same nodes are live. -/
lemma slot_same (t : NodeTable PathNode) (i : NodeId) (sl' : Slot PathNode)
    (h : t.slot i = some sl') : ∃ sl, t.slot i = some sl ∧ sl'.record = sl.record :=
  ⟨sl', h, rfl⟩

/-- Taking a key. -/
lemma takeKey (h : Keyed t ns {(ns, .level)}) {k : ℕ} (hk : ns.takeKey = some (k, ns')) :
    Keyed t ns' {(ns', .keyed k)} := by
  unfold Namespace.takeKey at hk
  split at hk
  · obtain ⟨rfl, rfl⟩ := Prod.mk.inj (Option.some.inj hk)
    refine ⟨?_, ?_, ?_, ?_, ?_⟩
    · intro i sl hsl
      rcases h.slotKey i sl hsl with hkey | ⟨x, hx, hxk⟩
      · exact Or.inl hkey
      · rw [Multiset.mem_singleton.mp hx] at hxk
        cases hxk
    · intro i sl hsl
      exact Nat.lt_succ_of_lt (h.slotLt i sl hsl)
    · intro k j hkj
      exact Nat.lt_succ_of_lt (h.keysLt k j hkj)
    · intro x hx k hxk
      rw [Multiset.mem_singleton.mp hx] at hxk
      obtain rfl := NsPhase.keyed.inj hxk
      refine ⟨Nat.lt_succ_self _, ?_, ?_⟩
      · cases hid : ns.idForNode ns.nextKey with
        | none => exact hid
        | some j => exact absurd (h.keysLt _ j hid) (lt_irrefl _)
      · intro i sl hsl hne
        exact absurd (h.slotLt i sl hsl) (hne ▸ lt_irrefl _)
    · intro x hx k i hxk
      rw [Multiset.mem_singleton.mp hx] at hxk
      cases hxk
  · cases hk

/-- Inserting a node with a key that was taken for it. -/
lemma insert {k : ℕ} {parent id : NodeId} (h : Keyed t ns {(ns, .keyed k)})
    (hins : t.insert ⟨k⟩ parent = some (id, t')) : Keyed t' ns {(ns, .inserted k id)} := by
  obtain ⟨gen, hslot⟩ := slot_insert hins
  obtain ⟨hlt, hnone, _⟩ := h.keyed _ (Multiset.mem_singleton_self _) k rfl
  refine ⟨?_, ?_, h.keysLt, ?_, ?_⟩
  · intro i sl hsl
    rw [hslot] at hsl
    split at hsl
    · next hi =>
      obtain rfl := Option.some.inj hsl
      exact Or.inr ⟨_, Multiset.mem_singleton_self _, by rw [hi]; rfl⟩
    · rcases h.slotKey i sl hsl with hkey | ⟨x, hx, hxk⟩
      · exact Or.inl hkey
      · rw [Multiset.mem_singleton.mp hx] at hxk
        cases hxk
  · intro i sl hsl
    rw [hslot] at hsl
    split at hsl
    · obtain rfl := Option.some.inj hsl
      exact hlt
    · exact h.slotLt i sl hsl
  · intro x hx k' hxk
    rw [Multiset.mem_singleton.mp hx] at hxk
    cases hxk
  · intro x hx k' i hxk
    rw [Multiset.mem_singleton.mp hx] at hxk
    obtain ⟨rfl, _⟩ := NsPhase.inserted.inj hxk
    exact ⟨hlt, hnone⟩

/-- Recording a node under its key. -/
lemma record {k : ℕ} {id : NodeId} (h : Keyed t ns {(ns, .inserted k id)}) (d : Dentry) :
    Keyed t (ns.record k id d) {(ns.record k id d, .level)} := by
  obtain ⟨hlt, hnone⟩ := h.inserted _ (Multiset.mem_singleton_self _) k id rfl
  have hid : ∀ k', (ns.record k id d).idForNode k' =
      if k' = k then some id else ns.idForNode k' :=
    fun k' => BTreeMap.lookup_insert_ite ns.keys k k' id
  refine ⟨?_, h.slotLt, ?_, ?_, ?_⟩
  · intro i sl hsl
    refine Or.inl ?_
    rw [hid]
    rcases h.slotKey i sl hsl with hkey | ⟨x, hx, hxk⟩
    · split
      · next heq =>
        rw [heq, hnone] at hkey
        cases hkey
      · exact hkey
    · rw [Multiset.mem_singleton.mp hx] at hxk
      obtain ⟨hk, rfl⟩ := NsPhase.inserted.inj hxk
      rw [if_pos hk.symm]
  · intro k' j hkj
    rw [hid] at hkj
    split at hkj
    · next heq => exact heq ▸ hlt
    · exact h.keysLt k' j hkj
  · intro x hx k' hxk
    rw [Multiset.mem_singleton.mp hx] at hxk
    cases hxk
  · intro x hx k' i hxk
    rw [Multiset.mem_singleton.mp hx] at hxk
    cases hxk

end Keyed

/-! ## Locks -/

section Locks

variable {s : RtState (PathNodeFs.sig P)} {v : PathView} {f' : PathState P}

/-- An own step of the adapter, as an instruction of the runtime. -/
lemma exec_own {i : PathInstr P} {ch : Option P.Choice} {r : i.Resp}
    {s' : RtState (PathNodeFs.sig P)} (he : s.exec n i.rt ch = some (r, s')) :
    ∃ c f', s.fs.exec n i c = some (r, f') ∧ s' = { s with fs := f' } := by
  cases ch with
  | none => cases he
  | some c =>
    obtain ⟨⟨a, f⟩, hex, heq⟩ := Option.map_eq_some_iff.mp he
    obtain ⟨rfl, rfl⟩ := Prod.mk.inj heq
    exact ⟨c, f, hex, rfl⟩

/-- A step that leaves the namespace alone and changes locks only. -/
lemma PathInv.relock {v' : PathView} (hi : PathInv exact s v) (hg : Guarded f' v')
    (hns : f'.ns = s.fs.ns) (howed : ∀ i, v'.owed i = v.owed i)
    (hlent : ∀ i, v'.lent i = v.lent i) (hphase : ∀ ph : NsPhase, ph.key ≠ none →
      ((∃ x ∈ v'.sect, x.2 = ph) ↔ ∃ x ∈ v.sect, x.2 = ph)) :
    PathInv exact { s with fs := f' } v' where
  guarded := hg
  linked := hi.linked.congr (fun d => by rw [hns]) (by rw [hns]) (fun _ => rfl) howed hlent
  keyed := hi.keyed.congr (Keyed.slot_same _) (by rw [hns]) (by rw [hns]) hphase

lemma PathInv.readLock (hi : PathInv exact s v) {c : P.Choice}
    (he : s.fs.exec n .readLock c = some ((), f')) :
    PathInv exact { s with fs := f' } (v.add .shared) := by
  have hg := hi.guarded
  change (if s.fs.writing then none else some ((), _)) = some ((), f') at he
  split at he
  · cases he
  · next hw =>
    obtain ⟨_, rfl⟩ := Prod.mk.inj (Option.some.inj he)
    refine hi.relock ?_ rfl (fun _ => rfl) (fun _ => rfl) fun _ _ => Iff.rfl
    refine ⟨?_, hg.writers, fun h => absurd h hw, hg.holders, hg.exclNs, hg.sectNs⟩
    change s.fs.readers + 1 = v.shared + 1
    rw [hg.readers]

lemma PathInv.readUnlock (hi : PathInv exact s (v.add .shared)) {c : P.Choice}
    (he : s.fs.exec n .readUnlock c = some ((), f')) : PathInv exact { s with fs := f' } v := by
  have hg := hi.guarded
  obtain ⟨_, rfl⟩ := Prod.mk.inj (Option.some.inj he)
  refine hi.relock ?_ rfl (fun _ => rfl) (fun _ => rfl) fun _ _ => Iff.rfl
  refine ⟨?_, hg.writers, ?_, hg.holders, hg.exclNs, hg.sectNs⟩
  · have hr : s.fs.readers = v.shared + 1 := hg.readers
    change s.fs.readers - 1 = v.shared
    omega
  · intro hw
    have hzero : v.shared + 1 = 0 := hg.apart hw
    omega

lemma PathInv.writeLock (hi : PathInv exact s v) {c : P.Choice}
    (he : s.fs.exec n .writeLock c = some ((), f')) :
    PathInv exact { s with fs := f' } (v.add (.excl s.fs.ns none)) := by
  have hg := hi.guarded
  change (if s.fs.writing ∨ 0 < s.fs.readers then none else some ((), _)) = some ((), f') at he
  split at he
  · cases he
  · next hfree =>
    obtain ⟨_, rfl⟩ := Prod.mk.inj (Option.some.inj he)
    obtain ⟨hw, hr⟩ := not_or.mp hfree
    have hexcl : v.excl.card = 0 := by
      have hcard := hg.writers
      rw [if_neg hw] at hcard
      exact hcard
    have hzero : v.shared = 0 := by
      have hreaders := hg.readers
      omega
    refine hi.relock ?_ rfl (fun _ => rfl) ?_ fun _ _ => Iff.rfl
    · refine ⟨hg.readers, ?_, fun _ => hzero, hg.holders, ?_, hg.sectNs⟩
      · rw [PathView.add, Multiset.card_cons, hexcl]
        rfl
      · intro x hx
        rcases Multiset.mem_cons.mp hx with rfl | hx
        · rfl
        · rw [Multiset.card_eq_zero.mp hexcl] at hx
          exact absurd hx (Multiset.notMem_zero x)
    · intro i
      simp

lemma PathInv.writeUnlock {ns : Namespace} (hi : PathInv exact s (v.add (.excl ns none)))
    {c : P.Choice} (he : s.fs.exec n .writeUnlock c = some ((), f')) :
    PathInv exact { s with fs := f' } v := by
  have hg := hi.guarded
  obtain ⟨_, rfl⟩ := Prod.mk.inj (Option.some.inj he)
  obtain ⟨hexcl, hshared, hw, _⟩ := hg.excl_unique
  refine hi.relock ?_ rfl (fun _ => rfl) ?_ fun _ _ => Iff.rfl
  · refine ⟨hg.readers, ?_, fun h => (nomatch h), hg.holders, ?_, hg.sectNs⟩
    · rw [hexcl]
      rfl
    · intro x hx
      rw [hexcl] at hx
      exact absurd hx (Multiset.notMem_zero x)
  · intro i
    simp

lemma PathInv.nsLock (hi : PathInv exact s v) {c : P.Choice}
    (he : s.fs.exec n .nsLock c = some ((), f')) :
    PathInv exact { s with fs := f' } (v.add (.sect s.fs.ns .level)) := by
  have hg := hi.guarded
  change (if s.fs.nsLocked then none else some ((), _)) = some ((), f') at he
  split at he
  · cases he
  · next hl =>
    obtain ⟨_, rfl⟩ := Prod.mk.inj (Option.some.inj he)
    have hsect : v.sect = 0 := by
      have hcard := hg.holders
      rw [if_neg hl] at hcard
      exact Multiset.card_eq_zero.mp hcard
    refine hi.relock ?_ rfl ?_ (fun _ => rfl) ?_
    · refine ⟨hg.readers, hg.writers, hg.apart, ?_, hg.exclNs, ?_⟩
      · rw [PathView.add, Multiset.card_cons, hsect]
        rfl
      · intro x hx
        rw [PathView.add, hsect] at hx
        rw [Multiset.mem_singleton.mp hx]
    · intro i
      simp [NsPhase.owes]
    · intro ph hph
      cases ph <;> simp_all [PathView.add, NsPhase.key]

lemma PathInv.nsUnlock {ns : Namespace} (hi : PathInv exact s (v.add (.sect ns .level)))
    {c : P.Choice} (he : s.fs.exec n .nsUnlock c = some ((), f')) :
    PathInv exact { s with fs := f' } v := by
  have hg := hi.guarded
  obtain ⟨_, rfl⟩ := Prod.mk.inj (Option.some.inj he)
  obtain ⟨hsect, _, _⟩ := hg.sect_unique
  refine hi.relock ?_ rfl ?_ (fun _ => rfl) ?_
  · refine ⟨hg.readers, hg.writers, hg.apart, ?_, hg.exclNs, ?_⟩
    · rw [hsect]
      rfl
    · intro x hx
      rw [hsect] at hx
      exact absurd hx (Multiset.notMem_zero x)
  · intro i
    simp [NsPhase.owes]
  · intro ph hph
    cases ph <;> simp_all [PathView.add, NsPhase.key]

end Locks

/-! ## Changes of the namespace -/

section Changes

variable {s : RtState (PathNodeFs.sig P)} {v : PathView} {f' : PathState P} {ns ns' : Namespace}
  {phase phase' : NsPhase} {m : Side} {t' : NodeTable PathNode}

/-- What a phase owes. -/
def NsPhase.debt (phase : NsPhase) (i : NodeId) : ℕ :=
  if phase.owes = some i then 1 else 0

/-- Who holds the namespace and a guard of the operations lock is alone with the namespace. -/
lemma Guarded.alone {s : PathState P} (h : Guarded s ((v.add (.sect ns phase)).add (m.guard ns))) :
    v.sect = 0 ∧ v.excl = 0 ∧ s.ns = ns := by
  have hsect : v.sect = 0 ∧ s.ns = ns := by
    have hcard := h.holders
    have hmem : (ns, phase) ∈ ((v.add (.sect ns phase)).add (m.guard ns)).sect := by
      cases m with
      | read => exact Multiset.mem_cons_self _ _
      | write => exact Multiset.mem_cons_self _ _
    have hone : v.sect.card + 1 = if s.nsLocked then 1 else 0 := by
      cases m with
      | read => exact (Multiset.card_cons _ _).symm.trans hcard
      | write => exact (Multiset.card_cons _ _).symm.trans hcard
    refine ⟨Multiset.card_eq_zero.mp ?_, (h.sectNs _ hmem).symm⟩
    split at hone
    · omega
    · omega
  have hexcl : v.excl = 0 := by
    cases m with
    | read => exact h.shared_apart.1
    | write => exact h.excl_unique.1
  exact ⟨hsect.1, hexcl, hsect.2⟩

/-- What the holder of the namespace knows. -/
lemma PathInv.enter (hi : PathInv exact s ((v.add (.sect ns phase)).add (m.guard ns))) :
    s.fs.ns = ns ∧ Linked exact (s.table.count .links) ns phase.debt (fun _ => 0) ∧
      Keyed s.table ns {(ns, phase)} := by
  obtain ⟨hsect, hexcl, hns⟩ := hi.guarded.alone
  have hlinked := hi.linked
  have hkeyed := hi.keyed
  rw [hns] at hlinked hkeyed
  refine ⟨hns, hlinked.congr (fun _ => rfl) rfl (fun _ => rfl) ?_ ?_, ?_⟩
  · intro i
    cases m with
    | read => simp [Side.guard, NsPhase.debt, PathView.owed_eq_zero hsect]
    | write => simp [Side.guard, NsPhase.debt, PathView.owed_eq_zero hsect]
  · intro i
    cases m with
    | read => simp [Side.guard, PathView.lent_eq_zero hexcl]
    | write => simp [Side.guard, PathView.lent_eq_zero hexcl]
  · cases m with
    | read =>
      rw [Side.guard, PathView.add, PathView.add, hsect] at hkeyed
      exact hkeyed
    | write =>
      rw [Side.guard, PathView.add, PathView.add, hsect] at hkeyed
      exact hkeyed

/-- The holder of the namespace may change it, as long as names, links and keys agree again. -/
lemma PathInv.change (hi : PathInv exact s ((v.add (.sect ns phase)).add (m.guard ns)))
    (hlocks : f'.nsLocked = s.fs.nsLocked ∧ f'.readers = s.fs.readers ∧
      f'.writing = s.fs.writing)
    (hns : f'.ns = ns') (hlinked : Linked exact (s.table.count .links) ns' phase'.debt fun _ => 0)
    (hkeyed : Keyed s.table ns' {(ns', phase')}) :
    PathInv exact { s with fs := f' } ((v.add (.sect ns' phase')).add (m.guard ns')) := by
  have hg := hi.guarded
  obtain ⟨hsect, hexcl, _⟩ := hg.alone
  obtain ⟨hl, hr, hw⟩ := hlocks
  have hview : ((v.add (.sect ns' phase')).add (m.guard ns')).sect = {(ns', phase')} := by
    cases m with
    | read =>
      rw [Side.guard, PathView.add, PathView.add, hsect]
      rfl
    | write =>
      rw [Side.guard, PathView.add, PathView.add, hsect]
      rfl
  refine ⟨⟨?_, ?_, ?_, ?_, ?_, ?_⟩, ?_, ?_⟩
  · rw [hr, hg.readers]
    cases m <;> rfl
  · rw [hw, ← hg.writers]
    cases m <;> simp [Side.guard, PathView.add]
  · rw [hw]
    intro h
    rw [← hg.apart h]
    cases m <;> rfl
  · rw [hl, ← hg.holders]
    cases m <;> simp [Side.guard, PathView.add]
  · intro x hx
    rw [hns]
    cases m with
    | read =>
      rw [Side.guard, PathView.add, PathView.add, hexcl] at hx
      exact absurd hx (Multiset.notMem_zero x)
    | write =>
      rw [Side.guard, PathView.add, PathView.add, hexcl] at hx
      rw [Multiset.mem_singleton.mp hx]
  · intro x hx
    rw [hview] at hx
    rw [hns, Multiset.mem_singleton.mp hx]
  · rw [show (RtState.fs { s with fs := f' }).ns = ns' from hns]
    refine hlinked.congr (fun _ => rfl) rfl (fun _ => rfl) ?_ ?_
    · intro i
      cases m <;> simp [Side.guard, NsPhase.debt, PathView.owed_eq_zero hsect]
    · intro i
      cases m <;> simp [Side.guard, PathView.lent_eq_zero hexcl]
  · rw [show (RtState.fs { s with fs := f' }).ns = ns' from hns, hview]
    exact hkeyed

lemma PathInv.takeKey {key : ℕ} {c : P.Choice}
    (hi : PathInv exact s ((v.add (.sect ns .level)).add (m.guard ns)))
    (he : s.fs.exec n .takeKey c = some (key, f')) :
    ∃ ns', ns.takeKey = some (key, ns') ∧
      PathInv exact { s with fs := f' } ((v.add (.sect ns' (.keyed key))).add (m.guard ns')) := by
  obtain ⟨hns, hlinked, hkeyed⟩ := hi.enter
  obtain ⟨⟨k, ns'⟩, hk, heq⟩ := Option.map_eq_some_iff.mp he
  obtain ⟨rfl, rfl⟩ := Prod.mk.inj heq
  rw [hns] at hk
  refine ⟨ns', hk, hi.change ⟨rfl, rfl, rfl⟩ rfl ?_ (hkeyed.takeKey hk)⟩
  unfold Namespace.takeKey at hk
  split at hk
  · obtain ⟨_, rfl⟩ := Prod.mk.inj (Option.some.inj hk)
    exact hlinked.congr (fun _ => rfl) rfl (fun _ => rfl) (fun _ => rfl) fun _ => rfl
  · cases hk

lemma PathInv.record {key : ℕ} {id : NodeId} {d : Dentry} {c : P.Choice} (hd : ns.find d = none)
    (hi : PathInv exact s ((v.add (.sect ns (.inserted key id))).add (m.guard ns)))
    (he : s.fs.exec n (.record key id d) c = some ((), f')) :
    PathInv exact { s with fs := f' }
      ((v.add (.sect (ns.record key id d) .level)).add (m.guard (ns.record key id d))) := by
  obtain ⟨hns, hlinked, hkeyed⟩ := hi.enter
  obtain ⟨_, rfl⟩ := Prod.mk.inj (Option.some.inj he)
  refine hi.change ⟨rfl, rfl, rfl⟩ (by rw [← hns]) ?_ (hkeyed.record d)
  -- recording is adding the first name; keys do not matter for links
  have hadd : Linked exact (s.table.count .links) (ns.addAlias id d) (NsPhase.debt .level)
      fun _ => 0 := by
    refine hlinked.addAlias hd (fun _ => rfl) ?_
    intro i
    simp [NsPhase.debt, NsPhase.owes, eq_comm]
  exact hadd.congr (fun _ => rfl) rfl (fun _ => rfl) (fun _ => rfl) fun _ => rfl

lemma PathInv.remove {d : Dentry} {r : Option NodeId} {c : P.Choice}
    (hi : PathInv exact s ((v.add (.sect ns .level)).add (m.guard ns)))
    (he : s.fs.exec n (.remove d) c = some (r, f')) :
    r = ns.find d ∧ PathInv exact { s with fs := f' }
      ((v.add (.sect (ns.remove d).2 (r.elim .level .unnamed))).add (m.guard (ns.remove d).2)) := by
  obtain ⟨hns, hlinked, hkeyed⟩ := hi.enter
  obtain ⟨rfl, rfl⟩ := Prod.mk.inj (Option.some.inj he)
  rw [hns, Namespace.remove_fst]
  have hkeys : (ns.remove d).2.keys = ns.keys ∧ (ns.remove d).2.nextKey = ns.nextKey := by
    unfold Namespace.remove
    split <;> exact ⟨rfl, rfl⟩
  refine ⟨rfl, hi.change ⟨rfl, rfl, rfl⟩ rfl ?_ ?_⟩
  · cases hd : ns.find d with
    | none =>
      rw [Namespace.remove_of_unbound hd]
      exact hlinked
    | some id =>
      refine hlinked.remove hd (fun _ => rfl) ?_
      intro i
      simp [NsPhase.debt, NsPhase.owes, eq_comm]
  · refine hkeyed.congr (Keyed.slot_same _) hkeys.1 hkeys.2 ?_
    intro ph hph
    cases hd : ns.find d <;> cases ph <;> simp [NsPhase.key] at hph ⊢

lemma PathInv.rebind {id : NodeId} {d : Dentry} {c : P.Choice} (hd : ns.find d = none)
    (hi : PathInv exact s ((v.add (.sect ns (.unnamed id))).add (.excl ns none)))
    (he : s.fs.exec n (.addAlias id d) c = some ((), f')) :
    PathInv exact { s with fs := f' }
      ((v.add (.sect (ns.addAlias id d) .level)).add (.excl (ns.addAlias id d) none)) := by
  obtain ⟨hns, hlinked, hkeyed⟩ := PathInv.enter (m := .write) hi
  obtain ⟨_, rfl⟩ := Prod.mk.inj (Option.some.inj he)
  refine PathInv.change (m := .write) hi ⟨rfl, rfl, rfl⟩ (by rw [← hns]) ?_ ?_
  · refine hlinked.addAlias hd (fun _ => rfl) ?_
    intro i
    simp [NsPhase.debt, NsPhase.owes, eq_comm]
  · refine hkeyed.congr (Keyed.slot_same _) rfl rfl ?_
    intro ph hph
    cases ph <;> simp [NsPhase.key] at hph ⊢

/-- The name comes before the link: the node had the name already, or its link is lent. -/
lemma PathInv.addAlias {id : NodeId} {d : Dentry} {c : P.Choice}
    (hid : id = NodeId.ROOT ∨ (ns.names id).Nonempty) (hfree : exact → ns.find d = none)
    (hi : PathInv exact s ((v.add (.sect ns .level)).add (.excl ns none)))
    (he : s.fs.exec n (.addAlias id d) c = some ((), f')) :
    ∃ lent, (lent = some id ∨ (lent = none ∧ ¬exact)) ∧ PathInv exact { s with fs := f' }
      ((v.add (.sect (ns.addAlias id d) .level)).add (.excl (ns.addAlias id d) lent)) := by
  have hg := hi.guarded
  obtain ⟨hns, hlinked, hkeyed⟩ := PathInv.enter (m := .write) hi
  obtain ⟨hsect, hexcl, _⟩ := Guarded.alone (m := .write) hg
  subst hns
  obtain ⟨_, rfl⟩ := Prod.mk.inj (Option.some.inj he)
  have hkeyed' : Keyed s.table (s.fs.ns.addAlias id d) {(s.fs.ns.addAlias id d, .level)} := by
    refine hkeyed.congr (Keyed.slot_same _) rfl rfl ?_
    intro ph hph
    cases ph <;> simp [NsPhase.key] at hph ⊢
  by_cases hmem : d ∈ s.fs.ns.names id
  · -- the node had the name already
    have hnex : ¬exact := by
      intro hex
      have hbound := hlinked.named hex d id hmem
      rw [hfree hex] at hbound
      cases hbound
    refine ⟨none, Or.inr ⟨rfl, hnex⟩,
      PathInv.change (m := .write) hi ⟨rfl, rfl, rfl⟩ rfl ?_ hkeyed'⟩
    refine hlinked.borrow hid hfree (fun _ => rfl) ?_
    intro i
    rw [if_neg (fun h => h.2 hmem)]
  · refine ⟨some id, Or.inl rfl, ⟨?_, ?_, ?_⟩⟩
    · refine ⟨hg.readers, ?_, hg.apart, ?_, ?_, ?_⟩
      · rw [← hg.writers]
        simp [PathView.add]
      · rw [← hg.holders]
        simp [PathView.add]
      · intro x hx
        rw [PathView.add, PathView.add, hexcl] at hx
        rw [Multiset.mem_singleton.mp hx]
      · intro x hx
        rw [PathView.add, PathView.add, hsect] at hx
        rw [Multiset.mem_singleton.mp hx]
    · have hborrow : Linked exact (s.table.count .links) (s.fs.ns.addAlias id d)
          (NsPhase.debt .level) (fun i => if i = id ∧ d ∉ s.fs.ns.names id then 1 else 0) :=
        hlinked.borrow hid hfree (fun _ => rfl) fun _ => rfl
      refine hborrow.congr (fun _ => rfl) rfl (fun _ => rfl) ?_ ?_
      · intro i
        simp [NsPhase.debt, PathView.owed_eq_zero hsect]
      · intro i
        simp [PathView.lent_eq_zero hexcl, hmem, eq_comm]
    · rw [PathView.add, PathView.add, hsect]
      exact hkeyed'

end Changes

/-! ## Changes of the inode table -/

section Table

variable {s : RtState (PathNodeFs.sig P)} {v : PathView} {ns : Namespace}
  {t' : NodeTable (PathNodeFs.sig P).Node} {id : NodeId}

/-- The runtime's own sections. -/
lemma PathInv.calm {f' : PathState P} {h' : Handles P.Payload} {hist' : History}
    (hi : PathInv exact s v) (hcalm : Calm s.table t') (hf : f' = s.fs) :
    PathInv exact ⟨t', h', f', hist'⟩ v := by
  subst hf
  refine ⟨hi.guarded, ?_, ?_⟩
  · exact hi.linked.congr (fun _ => rfl) rfl hcalm.links (fun _ => rfl) fun _ => rfl
  · refine hi.keyed.congr ?_ rfl rfl fun _ _ => Iff.rfl
    intro i sl' hsl'
    obtain ⟨sl, hsl, hrec, _⟩ := hcalm.origin i sl' hsl'
    exact ⟨sl, hsl, hrec⟩

/-- Another phase of the holder of the namespace. -/
lemma Guarded.rephase {f : PathState P} {phase : NsPhase} (phase' : NsPhase)
    (h : Guarded f (v.add (.sect ns phase))) : Guarded f (v.add (.sect ns phase')) := by
  obtain ⟨hsect, _, hns⟩ := h.sect_unique
  refine ⟨h.readers, h.writers, h.apart, ?_, h.exclNs, ?_⟩
  · rw [← h.holders]
    simp [PathView.add]
  · intro x hx
    rw [PathView.add, hsect] at hx
    rw [Multiset.mem_singleton.mp hx, hns]

lemma PathInv.insert {key : ℕ} {parent : NodeId} (hwf : s.table.WF)
    (hi : PathInv exact s (v.add (.sect ns (.keyed key))))
    (hins : s.table.insert ⟨key⟩ parent = some (id, t')) :
    PathInv exact { s with table := t' } (v.add (.sect ns (.inserted key id))) := by
  obtain ⟨hsect, _, hns⟩ := hi.guarded.sect_unique
  refine ⟨hi.guarded.rephase _, ?_, ?_⟩
  · refine hi.linked.shift ?_
    intro i
    change _ + _ = t'.count .links i + _
    rw [count_links_insert hwf hins]
    simp only [PathView.owed_add_sect, NsPhase.owes, Option.some.injEq, eq_comm]
    split <;> simp <;> omega
  · have hkeyed := hi.keyed
    rw [hns, PathView.add, hsect] at hkeyed
    have hnew := Keyed.insert hkeyed hins
    rw [PathView.add, hsect, hns]
    exact hnew

lemma PathInv.removeLink (hi : PathInv exact s (v.add (.sect ns (.unnamed id)))) :
    PathInv exact { s with table := s.table.removeLink id } (v.add (.sect ns .level)) := by
  obtain ⟨hsect, _, hns⟩ := hi.guarded.sect_unique
  have howed : (v.add (.sect ns (.unnamed id))).owed id = 1 := by
    simp [NsPhase.owes, PathView.owed_eq_zero hsect]
  refine ⟨hi.guarded.rephase _, ?_, ?_⟩
  · have hpos : 0 < s.table.count .links id := by
      by_contra hzero
      have := (hi.linked.of_unlinked (Nat.eq_zero_of_not_pos hzero)).2.2
      omega
    refine hi.linked.shift ?_
    intro i
    change _ = (s.table.decr .links 1 id).count .links i + _
    rw [count_decr]
    by_cases h : i = id
    · subst h
      simp [NsPhase.owes]
      omega
    · simp [NsPhase.owes, h, Ne.symm h]
      omega
  · refine hi.keyed.congr ?_ rfl rfl ?_
    · intro i sl' hsl'
      obtain ⟨sl, hsl, rfl⟩ := slot_of_slot_decr hsl'
      refine ⟨sl, hsl, ?_⟩
      split <;> simp
    · intro ph hph
      cases ph <;> simp_all [PathView.add, NsPhase.key]

lemma PathInv.addLink {lent : Option NodeId} (hlent : lent = some id ∨ (lent = none ∧ ¬exact))
    (hi : PathInv exact s (v.add (.excl ns lent))) (hadd : s.table.addLink id = some t') :
    PathInv exact { s with table := t' } (v.add (.excl ns none)) := by
  have hg := hi.guarded
  obtain ⟨hexcl, _, _, hns⟩ := hg.excl_unique
  obtain ⟨⟨o, t₁⟩, hinc, rfl⟩ := Option.map_eq_some_iff.mp hadd
  refine ⟨?_, ?_, ?_⟩
  · refine ⟨hg.readers, ?_, hg.apart, hg.holders, ?_, hg.sectNs⟩
    · rw [← hg.writers]
      simp [PathView.add]
    · intro x hx
      rw [PathView.add, hexcl] at hx
      rw [Multiset.mem_singleton.mp hx, hns]
  · rcases hlent with rfl | ⟨rfl, hnex⟩
    · -- the node has another link, so it is live and its count goes up
      have hone : (v.add (.excl ns (some id))).lent id = 1 := by
        simp [PathView.lent_eq_zero hexcl]
      have hpos : 0 < s.table.count .links id := by
        have h₁ := hi.linked.lentNamed id (by omega)
        have h₂ := hi.linked.enough id
        omega
      obtain ⟨sl, hsl⟩ := slot_of_count_pos hpos
      have hsome : o.isSome = true := by
        rcases incr_cases hinc with ⟨_, hdead, _⟩ | ⟨sl', rfl, _, _⟩
        · rw [hsl] at hdead
          cases hdead
        · rfl
      refine hi.linked.repay hone ?_ ?_
      · intro i
        have hcount := count_incr hinc .links i
        simpa [hsome] using hcount
      · intro i
        simp [eq_comm]
    · refine (hi.linked.spare hnex ?_).congr (fun _ => rfl) rfl (fun _ => rfl) (fun _ => rfl)
        fun _ => rfl
      intro i
      have hcount := count_incr hinc .links i
      change _ ≤ t₁.count .links i
      omega
  · refine hi.keyed.congr ?_ rfl rfl fun _ _ => Iff.rfl
    intro i sl' hsl'
    change t₁.slot i = some sl' at hsl'
    rw [slot_incr hinc] at hsl'
    obtain ⟨sl, hsl, rfl⟩ := Option.map_eq_some_iff.mp hsl'
    refine ⟨sl, hsl, ?_⟩
    split
    · exact Slot.setCounter_record _ _ _
    · rfl

end Table

/-! ## Contracts -/

/-- A step that changes neither the namespace nor a lock. -/
lemma PathInv.idle {s : RtState (PathNodeFs.sig P)} {v : PathView} (hi : PathInv exact s v)
    (inner : P.State) (hist : PathHistory P) :
    PathInv exact { s with fs := { s.fs with inner := inner, hist := hist } } v := by
  have hg := hi.guarded
  refine hi.relock ?_ rfl (fun _ => rfl) (fun _ => rfl) fun _ _ => Iff.rfl
  exact ⟨hg.readers, hg.writers, hg.apart, hg.holders, hg.exclNs, hg.sectNs⟩

/-- Every instruction honours its contracts. -/
theorem PathContract.exec {i : RtInstr (PathNodeFs.sig P)} {C : Contract PathToken i.Resp}
    (hC : PathContract exact i C) {s s' : RtState (PathNodeFs.sig P)} {ch : Option P.Choice}
    {r : i.Resp} {F : Multiset PathToken} (hwf : s.table.WF) (he : s.exec n i ch = some (r, s'))
    (hi : PathInv exact s (pathView (C.take + F)))
    (hfree : exact → ∀ id d, i = PathInstr.rt (.addAlias id d) → s.fs.ns.find d = none) :
    ∃ g, C.give r g ∧ PathInv exact s' (pathView (g + F)) := by
  cases hC with
  | runtime i hrt =>
    obtain ⟨hcalm, hf⟩ := calm_exec hrt he
    exact ⟨0, rfl, hi.calm hcalm hf⟩
  | readLock =>
    obtain ⟨c, f', hex, rfl⟩ := exec_own he
    refine ⟨_, rfl, ?_⟩
    rw [zero_add] at hi
    rw [pathView_single]
    exact hi.readLock hex
  | readUnlock =>
    obtain ⟨c, f', hex, rfl⟩ := exec_own he
    refine ⟨0, rfl, ?_⟩
    rw [pathView_single] at hi
    rw [zero_add]
    exact hi.readUnlock hex
  | writeLock =>
    obtain ⟨c, f', hex, rfl⟩ := exec_own he
    refine ⟨_, ⟨s.fs.ns, rfl⟩, ?_⟩
    rw [zero_add] at hi
    rw [pathView_single]
    exact hi.writeLock hex
  | writeUnlock ns =>
    obtain ⟨c, f', hex, rfl⟩ := exec_own he
    refine ⟨0, rfl, ?_⟩
    rw [pathView_single] at hi
    rw [zero_add]
    exact hi.writeUnlock hex
  | nodeId key =>
    obtain ⟨c, f', hex, rfl⟩ := exec_own he
    change (if s.fs.nsLocked then none else some (_, s.fs)) = some (r, f') at hex
    split at hex
    · cases hex
    · obtain ⟨_, rfl⟩ := Prod.mk.inj (Option.some.inj hex)
      exact ⟨0, rfl, hi⟩
  | pathFor id =>
    obtain ⟨c, f', hex, rfl⟩ := exec_own he
    change (if s.fs.nsLocked then none else (s.fs.ns.pathFor id).map _) = some (r, f') at hex
    split at hex
    · cases hex
    · obtain ⟨p, _, heq⟩ := Option.map_eq_some_iff.mp hex
      obtain ⟨_, rfl⟩ := Prod.mk.inj heq
      exact ⟨0, rfl, hi⟩
  | pathForExcl ns id =>
    obtain ⟨c, f', hex, rfl⟩ := exec_own he
    change (if s.fs.nsLocked then none else (s.fs.ns.pathFor id).map _) = some (r, f') at hex
    split at hex
    · cases hex
    · obtain ⟨p, hp, heq⟩ := Option.map_eq_some_iff.mp hex
      obtain ⟨rfl, rfl⟩ := Prod.mk.inj heq
      have hns : s.fs.ns = ns := by
        have hg := hi.guarded
        rw [pathView_single] at hg
        exact hg.excl_unique.2.2.2
      rw [hns] at hp
      exact ⟨_, ⟨hp, rfl⟩, hi⟩
  | nsLock m ns =>
    obtain ⟨c, f', hex, rfl⟩ := exec_own he
    rw [pathView_single] at hi
    cases m with
    | read =>
      refine ⟨_, ⟨s.fs.ns, by simp, rfl⟩, ?_⟩
      rw [pathView_pair]
      have hnew := hi.nsLock hex
      exact hnew
    | write =>
      have hns : s.fs.ns = ns := hi.guarded.excl_unique.2.2.2
      refine ⟨_, ⟨s.fs.ns, fun _ => hns, rfl⟩, ?_⟩
      rw [pathView_pair]
      subst hns
      exact hi.nsLock hex
  | nsUnlock ns =>
    obtain ⟨c, f', hex, rfl⟩ := exec_own he
    refine ⟨0, rfl, ?_⟩
    rw [pathView_single] at hi
    rw [zero_add]
    exact hi.nsUnlock hex
  | known ns d =>
    obtain ⟨c, f', hex, rfl⟩ := exec_own he
    obtain ⟨rfl, rfl⟩ := Prod.mk.inj (Option.some.inj hex)
    have hns : s.fs.ns = ns := by
      have hg := hi.guarded
      rw [pathView_single] at hg
      exact hg.sect_unique.2.2
    exact ⟨_, ⟨by rw [hns], rfl⟩, hi.idle s.fs.inner _⟩
  | find ns d =>
    obtain ⟨c, f', hex, rfl⟩ := exec_own he
    obtain ⟨rfl, rfl⟩ := Prod.mk.inj (Option.some.inj hex)
    have hns : s.fs.ns = ns := by
      have hg := hi.guarded
      rw [pathView_single] at hg
      exact hg.sect_unique.2.2
    exact ⟨_, ⟨by rw [hns], rfl⟩, hi⟩
  | takeKey m ns =>
    obtain ⟨c, f', hex, rfl⟩ := exec_own he
    rw [pathView_pair] at hi
    obtain ⟨ns', hk, hnew⟩ := hi.takeKey hex
    refine ⟨_, ⟨ns', hk, rfl⟩, ?_⟩
    rw [pathView_pair]
    exact hnew
  | insert ns key parent =>
    obtain ⟨⟨id, t'⟩, hins, heq⟩ := Option.map_eq_some_iff.mp he
    obtain ⟨rfl, rfl⟩ := Prod.mk.inj heq
    refine ⟨_, rfl, ?_⟩
    rw [pathView_single] at hi ⊢
    exact hi.insert hwf hins
  | record m ns key id d hd =>
    obtain ⟨c, f', hex, rfl⟩ := exec_own he
    refine ⟨_, rfl, ?_⟩
    rw [pathView_pair] at hi ⊢
    exact hi.record hd hex
  | remove m ns d =>
    obtain ⟨c, f', hex, rfl⟩ := exec_own he
    rw [pathView_pair] at hi
    obtain ⟨hr, hnew⟩ := hi.remove hex
    refine ⟨_, ⟨hr, rfl⟩, ?_⟩
    rw [pathView_pair]
    exact hnew
  | removeLink ns id =>
    obtain ⟨_, rfl⟩ := Prod.mk.inj (Option.some.inj he)
    refine ⟨_, rfl, ?_⟩
    rw [pathView_single] at hi ⊢
    exact hi.removeLink
  | rebind ns id d hd =>
    obtain ⟨c, f', hex, rfl⟩ := exec_own he
    refine ⟨_, rfl, ?_⟩
    rw [pathView_pair] at hi ⊢
    exact hi.rebind hd hex
  | addAlias ns id d hid =>
    obtain ⟨c, f', hex, rfl⟩ := exec_own he
    rw [pathView_pair] at hi
    have hns : s.fs.ns = ns := (Guarded.alone (m := .write) hi.guarded).2.2
    obtain ⟨lent, hlent, hnew⟩ := hi.addAlias hid (fun hex' => hns ▸ hfree hex' id d rfl) hex
    refine ⟨_, ⟨lent, hlent, rfl⟩, ?_⟩
    rw [pathView_pair]
    exact hnew
  | addLink ns id lent hlent =>
    obtain ⟨t', hadd, heq⟩ := Option.map_eq_some_iff.mp he
    obtain ⟨_, rfl⟩ := Prod.mk.inj heq
    refine ⟨_, rfl, ?_⟩
    rw [pathView_single] at hi ⊢
    exact hi.addLink hlent hadd
  | reparent id newParent =>
    obtain ⟨_, rfl⟩ := Prod.mk.inj (Option.some.inj he)
    exact ⟨0, rfl, hi.calm (Calm.reparent _ _ _) rfl⟩
  | inner call =>
    obtain ⟨c, f', hex, rfl⟩ := exec_own he
    obtain ⟨⟨a, st⟩, _, heq⟩ := Option.map_eq_some_iff.mp hex
    obtain ⟨_, rfl⟩ := Prod.mk.inj heq
    exact ⟨0, rfl, hi.idle st s.fs.hist⟩

end TypedFuse
