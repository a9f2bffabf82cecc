import TypedFuse.Core.Reclaim
import TypedFuse.Path.PathSample

/-!
# Keys and reclaimed nodes

The key in the payload of a node is made once, so the entry of a live node stays its own.  The
namespace never gives an entry up: after the inode table has reclaimed a node, the key of that node
still leads to its number, which another node may have by then.

`Stocked` says what is known of the two tables in the middle of a run, and `KeysExact` what one
would expect of them between requests.  The latter holds exactly as long as nothing was reclaimed.
-/

namespace TypedFuse

open Conc Conc.Service NodeTable TypedFuse.Runtime

variable {P : PathFilesystem}

/-! ## Nodes that are not recorded yet -/

/-- Some thread has inserted a node that it has not recorded yet. -/
def Pending (T : Multiset PathToken) (k : ℕ) (i : NodeId) : Prop :=
  ∃ ns, PathToken.sect ns (.inserted k i) ∈ T

section Pending

variable {S T : Multiset PathToken} {ns : Namespace} {k : ℕ} {i : NodeId}

@[simp] lemma pending_zero : ¬ Pending 0 k i := by
  rintro ⟨ns, h⟩
  exact Multiset.notMem_zero _ h

@[simp] lemma pending_add : Pending (S + T) k i ↔ Pending S k i ∨ Pending T k i := by
  constructor
  · rintro ⟨ns, h⟩
    rcases Multiset.mem_add.mp h with h | h
    · exact Or.inl ⟨ns, h⟩
    · exact Or.inr ⟨ns, h⟩
  · rintro (⟨ns, h⟩ | ⟨ns, h⟩)
    · exact ⟨ns, Multiset.mem_add.mpr (Or.inl h)⟩
    · exact ⟨ns, Multiset.mem_add.mpr (Or.inr h)⟩

@[simp] lemma pending_cons {x : PathToken} :
    Pending (x ::ₘ T) k i ↔ Pending {x} k i ∨ Pending T k i := by
  rw [← Multiset.singleton_add, pending_add]

@[simp] lemma pending_sect {phase : NsPhase} :
    Pending {.sect ns phase} k i ↔ phase = .inserted k i := by
  constructor
  · rintro ⟨ns', h⟩
    exact (PathToken.sect.inj (Multiset.mem_singleton.mp h)).2.symm
  · rintro rfl
    exact ⟨ns, Multiset.mem_singleton_self _⟩

@[simp] lemma pending_shared : ¬ Pending {.shared} k i := by
  rintro ⟨ns', h⟩
  cases Multiset.mem_singleton.mp h

@[simp] lemma pending_excl {lent : Option NodeId} : ¬ Pending {.excl ns lent} k i := by
  rintro ⟨ns', h⟩
  cases Multiset.mem_singleton.mp h

@[simp] lemma pending_guard {m : Side} : ¬ Pending {m.guard ns} k i := by
  cases m with
  | read => exact pending_shared
  | write => exact pending_excl

/-- The phases among the guards. -/
lemma mem_sect_pathView {phase : NsPhase} :
    (ns, phase) ∈ (pathView T).sect ↔ PathToken.sect ns phase ∈ T := by
  induction T using Multiset.induction with
  | empty =>
      exact ⟨fun h => absurd h (Multiset.notMem_zero _),
        fun h => absurd h (Multiset.notMem_zero _)⟩
  | cons x T ih =>
    rw [pathView_cons, Multiset.mem_cons, ← ih]
    cases x with
    | shared => simp [PathView.add]
    | excl ns lent => simp [PathView.add]
    | sect ns' phase' => simp [PathView.add]

lemma pending_iff : Pending T k i ↔ ∃ x ∈ (pathView T).sect, x.2 = .inserted k i := by
  constructor
  · rintro ⟨ns, h⟩
    exact ⟨(ns, _), mem_sect_pathView.mpr h, rfl⟩
  · rintro ⟨⟨ns, phase⟩, h, rfl⟩
    exact ⟨ns, mem_sect_pathView.mp h⟩

/-- A node that is not recorded yet is owed a name. -/
lemma Pending.owed (h : Pending T k i) : 0 < (pathView T).owed i := by
  obtain ⟨x, hx, hphase⟩ := pending_iff.mp h
  refine Multiset.countP_pos.mpr ⟨x, hx, ?_⟩
  rw [hphase]
  rfl

end Pending

/-! ## The two tables in the middle of a run -/

namespace NodeTable

/-- The number is that of a live node with the key. -/
def HoldsKey (t : NodeTable PathNode) (k : ℕ) (i : NodeId) : Prop :=
  ∃ sl, t.slot i = some sl ∧ sl.record.payload.key = k

lemma Spares.holdsKey {t t' : NodeTable PathNode} {k : ℕ} {i : NodeId} (h : Spares t t')
    (hk : t.HoldsKey k i) : t'.HoldsKey k i := by
  obtain ⟨sl, hsl, hkey⟩ := hk
  obtain ⟨sl', hsl', hrec⟩ := h.live i sl hsl
  exact ⟨sl', hsl', by rw [hrec, hkey]⟩

end NodeTable

/-- The keys of reclaimed nodes and of live ones, when the threads hold the guards `T`. -/
structure Stocked (t : NodeTable PathNode) (ns : Namespace) (T : Multiset PathToken) : Prop where
  /-- The key of a reclaimed node still leads to its number, and no live node has that key. -/
  gone : ∀ p ∈ t.reclaimed, ns.idForNode p.2.record.payload.key = some p.1 ∧
    ∀ i, ¬ t.HoldsKey p.2.record.payload.key i
  /-- If no node was reclaimed, a key leads to a live node that has it. -/
  kept : t.reclaimed = [] → ∀ k i, ns.idForNode k = some i ∨ Pending T k i → t.HoldsKey k i

namespace Stocked

variable {t t' : NodeTable PathNode} {ns ns' : Namespace} {T T' : Multiset PathToken}

/-- A step that reclaims nothing and adds neither a node nor a key. -/
lemma keep (h : Stocked t ns T) (hspares : Spares t t')
    (horigin : ∀ k i, t'.HoldsKey k i → t.HoldsKey k i) (hkeys : ns'.keys = ns.keys)
    (hpending : ∀ k i, Pending T' k i → Pending T k i) : Stocked t' ns' T' := by
  have hid : ∀ k, ns'.idForNode k = ns.idForNode k := by
    intro k
    unfold Namespace.idForNode
    rw [hkeys]
  constructor
  · intro p hp
    rw [hspares.reclaimed] at hp
    obtain ⟨hkey, hnot⟩ := h.gone p hp
    exact ⟨(hid _).trans hkey, fun i hi => hnot i (horigin _ i hi)⟩
  · intro hnil k i hk
    rw [hspares.reclaimed] at hnil
    refine hspares.holdsKey (h.kept hnil k i ?_)
    rcases hk with hk | hk
    · exact Or.inl ((hid k).symm.trans hk)
    · exact Or.inr (hpending k i hk)

/-- Reclaiming a node that is recorded. -/
lemma lose (h : Stocked t ns T) (hkeyed : Keyed t ns (pathView T).sect) (hloses : Loses t t')
    (horigin : ∀ k i, t'.HoldsKey k i → t.HoldsKey k i)
    (hpending : ∀ k i, Pending T k i → t'.slot i ≠ none) : Stocked t' ns T' := by
  obtain ⟨i, sl, sl', hsl, hrec, hreclaimed, hdead⟩ := hloses
  have hentry : ∀ j s, t.slot j = some s →
      ns.idForNode s.record.payload.key = some j ∨ Pending T s.record.payload.key j := by
    intro j s hs
    rcases hkeyed.slotKey j s hs with hk | hk
    · exact Or.inl hk
    · exact Or.inr (pending_iff.mpr hk)
  have hkey : ns.idForNode sl.record.payload.key = some i := by
    rcases hentry i sl hsl with hk | hk
    · exact hk
    · exact absurd hdead (hpending _ i hk)
  constructor
  · intro p hp
    rw [hreclaimed] at hp
    rcases List.mem_cons.mp hp with rfl | hp
    · rw [hrec]
      refine ⟨hkey, ?_⟩
      intro j hj
      obtain ⟨s, hs, hsame⟩ := horigin _ j hj
      rcases hentry j s hs with hk | hk
      · rw [hsame, hkey] at hk
        obtain rfl := Option.some.inj hk
        obtain ⟨s', hs', _⟩ := hj
        rw [hdead] at hs'
        cases hs'
      · obtain ⟨x, hx, hphase⟩ := pending_iff.mp hk
        have hnone := (hkeyed.inserted x hx _ j hphase).2
        rw [hsame, hkey] at hnone
        cases hnone
    · obtain ⟨hk, hnot⟩ := h.gone p hp
      exact ⟨hk, fun j hj => hnot j (horigin _ j hj)⟩
  · intro hnil
    rw [hreclaimed] at hnil
    cases hnil

/-- Inserting a node with a key that was taken for it. -/
lemma insert {k : ℕ} {parent id : NodeId} (h : Stocked t ns T) (hwf : t.WF)
    (hfree : ns.idForNode k = none) (hins : t.insert ⟨k⟩ parent = some (id, t'))
    (hpending : ∀ k' i, Pending T' k' i → (k' = k ∧ i = id) ∨ Pending T k' i) :
    Stocked t' ns T' := by
  have hspares := Spares.insert hwf hins
  obtain ⟨gen, hslot⟩ := slot_insert hins
  constructor
  · intro p hp
    rw [hspares.reclaimed] at hp
    obtain ⟨hkey, hnot⟩ := h.gone p hp
    refine ⟨hkey, ?_⟩
    rintro i ⟨sl, hsl, hsame⟩
    rw [hslot] at hsl
    split at hsl
    · obtain rfl := Option.some.inj hsl
      rw [← hsame] at hkey
      exact Option.some_ne_none _ (hkey.symm.trans hfree)
    · exact hnot i ⟨sl, hsl, hsame⟩
  · intro hnil k' i hk
    rw [hspares.reclaimed] at hnil
    have hold : ns.idForNode k' = some i ∨ Pending T k' i → t'.HoldsKey k' i :=
      fun hk' => hspares.holdsKey (h.kept hnil k' i hk')
    rcases hk with hk | hk
    · exact hold (Or.inl hk)
    · rcases hpending k' i hk with ⟨rfl, rfl⟩ | hk
      · exact ⟨t.freshSlot ⟨k'⟩ gen parent, by rw [hslot, if_pos rfl], rfl⟩
      · exact hold (Or.inr hk)

/-- Recording a node that was inserted. -/
lemma record {k : ℕ} {id : NodeId} (h : Stocked t ns T) (d : Dentry)
    (hfree : ns.idForNode k = none) (hown : Pending T k id)
    (hpending : ∀ k' i, Pending T' k' i → Pending T k' i) :
    Stocked t (ns.record k id d) T' := by
  have hid : ∀ k', (ns.record k id d).idForNode k' =
      if k' = k then some id else ns.idForNode k' :=
    fun k' => BTreeMap.lookup_insert_ite ns.keys k k' id
  constructor
  · intro p hp
    obtain ⟨hkey, hnot⟩ := h.gone p hp
    refine ⟨?_, hnot⟩
    rw [hid, if_neg, hkey]
    intro heq
    rw [heq, hfree] at hkey
    cases hkey
  · intro hnil k' i hk
    refine h.kept hnil k' i ?_
    rcases hk with hk | hk
    · rw [hid] at hk
      split at hk
      · next heq =>
        obtain rfl := Option.some.inj hk
        exact Or.inr (heq ▸ hown)
      · exact Or.inl hk
    · exact Or.inr (hpending k' i hk)

end Stocked

/-! ## Steps -/

/-- Only recording a node adds a key. -/
lemma keys_exec {s s' : PathState P} {n : ℕ} {i : PathInstr P} {c : P.Choice} {r : i.Resp}
    (hi : ∀ k id d, i ≠ .record k id d) (he : s.exec n i c = some (r, s')) :
    s'.ns.keys = s.ns.keys := by
  cases i with
  | record k id d => exact absurd rfl (hi k id d)
  | readLock | writeLock | nsLock | nodeId key =>
    simp only [PathState.exec] at he
    split at he
    · cases he
    · obtain ⟨_, rfl⟩ := Prod.mk.inj (Option.some.inj he)
      rfl
  | readUnlock | writeUnlock | nsUnlock | known d | find d | addAlias id d =>
    obtain ⟨_, rfl⟩ := Prod.mk.inj (Option.some.inj he)
    rfl
  | pathFor id =>
    simp only [PathState.exec] at he
    split at he
    · cases he
    · obtain ⟨_, _, heq⟩ := Option.map_eq_some_iff.mp he
      obtain ⟨_, rfl⟩ := Prod.mk.inj heq
      rfl
  | takeKey =>
    obtain ⟨⟨k, ns⟩, hk, heq⟩ := Option.map_eq_some_iff.mp he
    obtain ⟨_, rfl⟩ := Prod.mk.inj heq
    unfold Namespace.takeKey at hk
    split at hk
    · obtain ⟨_, rfl⟩ := Prod.mk.inj (Option.some.inj hk)
      rfl
    · cases hk
  | remove d =>
    obtain ⟨_, rfl⟩ := Prod.mk.inj (Option.some.inj he)
    change (s.ns.remove d).2.keys = s.ns.keys
    unfold Namespace.remove
    split
    · rfl
    · rfl
  | inner call =>
    obtain ⟨_, _, heq⟩ := Option.map_eq_some_iff.mp he
    obtain ⟨_, rfl⟩ := Prod.mk.inj heq
    rfl

/-- What a step can have as live nodes that were there before. -/
lemma origin_exec {s s' : RtState (PathNodeFs.sig P)} {n : ℕ} {i : RtInstr (PathNodeFs.sig P)}
    {ch : Option P.Choice} {r : i.Resp} (he : s.exec n i ch = some (r, s'))
    (hi : (∀ j, i ≠ .fs j) ∨ ∃ id, i = .fs (.removeLink (σ := PathNodeFs.sig P) id))
    (k : ℕ) (j : NodeId) (hk : s'.table.HoldsKey k j) : s.table.HoldsKey k j := by
  obtain ⟨sl', hsl', hkey⟩ := hk
  rcases hi with hi | ⟨id, rfl⟩
  · obtain ⟨sl, hsl, hrec, _⟩ := (calm_exec hi he).1.origin j sl' hsl'
    exact ⟨sl, hsl, by rw [← hrec, hkey]⟩
  · obtain ⟨_, rfl⟩ := Prod.mk.inj (Option.some.inj he)
    obtain ⟨sl, hsl, rfl⟩ := slot_of_slot_decr hsl'
    refine ⟨sl, hsl, ?_⟩
    rw [← hkey]
    split
    · rw [Slot.setCounter_record]
    · rfl

section Steps

variable {s s' : RtState (PathNodeFs.sig P)} {n : ℕ} {T T' : Multiset PathToken}

/-- An own step of the adapter that records no node. -/
lemma Stocked.own {i : PathInstr P} {ch : Option P.Choice} {r : i.Resp}
    (h : Stocked s.table s.fs.ns T) (he : s.exec n i.rt ch = some (r, s'))
    (hi : ∀ k id d, i ≠ .record k id d) (hpending : ∀ k i, Pending T' k i → Pending T k i) :
    Stocked s'.table s'.fs.ns T' := by
  obtain ⟨c, f', hex, rfl⟩ := exec_own he
  exact h.keep (.refl _) (fun _ _ hk => hk) (keys_exec hi hex) hpending

/-- A step of the inode table that may reclaim a node. -/
lemma Stocked.give {i : RtInstr (PathNodeFs.sig P)} {ch : Option P.Choice} {r : i.Resp}
    (h : Stocked s.table s.fs.ns T) (hwf : s.table.WF) (he : s.exec n i ch = some (r, s'))
    (hi : (∀ j, i ≠ .fs j) ∨ ∃ id, i = .fs (.removeLink (σ := PathNodeFs.sig P) id))
    (hkeyed : Keyed s.table s.fs.ns (pathView T).sect) (hinv : PathInv False s' (pathView T'))
    (hns : s'.fs.ns = s.fs.ns) (hpending : ∀ k i, Pending T' k i ↔ Pending T k i) :
    Stocked s'.table s'.fs.ns T' := by
  rw [hns]
  rcases exec_reclaims hwf he with ⟨_, hspares⟩ | ⟨_, hloses⟩
  · exact h.keep hspares (origin_exec he hi) rfl fun k i hk => (hpending k i).mp hk
  · refine h.lose hkeyed hloses (origin_exec he hi) ?_
    intro k i hk hdead
    have howed := ((hpending k i).mpr hk).owed
    have hzero := (hinv.linked.of_unlinked (count_of_dead hdead .links)).2.2
    omega

end Steps

/-- Every instruction keeps track of the keys. -/
theorem PathContract.stocked {i : RtInstr (PathNodeFs.sig P)} {C : Contract PathToken i.Resp}
    (hC : PathContract False i C) {s s' : RtState (PathNodeFs.sig P)} {n : ℕ}
    {ch : Option P.Choice} {r : i.Resp} {F g : Multiset PathToken} (hwf : s.table.WF)
    (he : s.exec n i ch = some (r, s')) (hi : PathInv False s (pathView (C.take + F)))
    (h : Stocked s.table s.fs.ns (C.take + F)) (hgive : C.give r g)
    (hi' : PathInv False s' (pathView (g + F))) : Stocked s'.table s'.fs.ns (g + F) := by
  cases hC with
  | runtime i hrt =>
    obtain rfl : g = 0 := hgive
    have hns : s'.fs.ns = s.fs.ns := by
      rw [(calm_exec hrt he).2]
    exact h.give hwf he (Or.inl hrt) hi.keyed hi' hns fun _ _ => Iff.rfl
  | readLock | readUnlock | writeUnlock ns | nsUnlock ns =>
    obtain rfl := hgive
    exact h.own he (by simp) (by simp)
  | nodeId key | pathFor id | inner call =>
    obtain rfl := hgive
    exact h.own he (by simp) fun _ _ hk => hk
  | writeLock =>
    obtain ⟨ns, rfl⟩ := hgive
    exact h.own he (by simp) (by simp)
  | pathForExcl ns id | known ns d | find ns d =>
    obtain ⟨_, rfl⟩ := hgive
    exact h.own he (by simp) (by simp)
  | nsLock m ns =>
    obtain ⟨ns', _, rfl⟩ := hgive
    exact h.own he (by simp) (by simp)
  | takeKey m ns =>
    obtain ⟨ns', _, rfl⟩ := hgive
    exact h.own he (by simp) (by simp)
  | insert ns key parent =>
    obtain rfl := hgive
    obtain ⟨⟨id, t'⟩, hins, heq⟩ := Option.map_eq_some_iff.mp he
    obtain ⟨rfl, rfl⟩ := Prod.mk.inj heq
    have hfree : s.fs.ns.idForNode key = none := by
      have hmem : (ns, NsPhase.keyed key) ∈ (pathView ({.sect ns (.keyed key)} + F)).sect :=
        mem_sect_pathView.mpr (Multiset.mem_add.mpr (Or.inl (Multiset.mem_singleton_self _)))
      exact (hi.keyed.keyed _ hmem key rfl).2.1
    refine h.insert hwf hfree hins ?_
    intro k' i hk
    rcases pending_add.mp hk with hk | hk
    · obtain ⟨rfl, rfl⟩ := NsPhase.inserted.inj (pending_sect.mp hk)
      exact Or.inl ⟨rfl, rfl⟩
    · exact Or.inr (pending_add.mpr (Or.inr hk))
  | record m ns key id d hd =>
    obtain rfl := hgive
    obtain ⟨c, f', hex, rfl⟩ := exec_own he
    obtain ⟨_, rfl⟩ := Prod.mk.inj (Option.some.inj hex)
    have hown : Pending ({m.guard ns} + {.sect ns (.inserted key id)} + F) key id := by simp
    have hfree : s.fs.ns.idForNode key = none := by
      obtain ⟨x, hx, hphase⟩ := pending_iff.mp hown
      exact (hi.keyed.inserted x hx key id hphase).2
    refine h.record d hfree hown ?_
    intro k' i hk
    refine pending_add.mpr (Or.inr ?_)
    simpa using hk
  | remove m ns d =>
    obtain ⟨_, rfl⟩ := hgive
    refine h.own he (by simp) ?_
    cases r with
    | none => simp
    | some id => simp
  | removeLink ns id =>
    obtain rfl := hgive
    have hns : s'.fs.ns = s.fs.ns := by
      obtain ⟨_, rfl⟩ := Prod.mk.inj (Option.some.inj he)
      rfl
    exact h.give hwf he (Or.inr ⟨id, rfl⟩) hi.keyed hi' hns (by simp)
  | rebind ns id d hd =>
    obtain rfl := hgive
    exact h.own he (by simp) (by simp)
  | addAlias ns id d hid =>
    obtain ⟨lent, _, rfl⟩ := hgive
    exact h.own he (by simp) (by simp)
  | addLink ns id lent hlent =>
    obtain rfl := hgive
    obtain ⟨t', hadd, heq⟩ := Option.map_eq_some_iff.mp he
    obtain ⟨_, rfl⟩ := Prod.mk.inj heq
    obtain ⟨⟨o, t₁⟩, hinc, rfl⟩ := Option.map_eq_some_iff.mp hadd
    refine h.keep (.incr hinc) ?_ rfl (by simp)
    rintro k j ⟨sl', hsl', hkey⟩
    change t₁.slot j = some sl' at hsl'
    rw [slot_incr hinc] at hsl'
    obtain ⟨sl, hsl, rfl⟩ := Option.map_eq_some_iff.mp hsl'
    refine ⟨sl, hsl, ?_⟩
    rw [← hkey]
    split
    · rw [Slot.setCounter_record]
    · rfl
  | reparent id newParent =>
    obtain ⟨_, rfl⟩ := Prod.mk.inj (Option.some.inj he)
    obtain rfl : g = 0 := hgive
    refine h.keep (.reparent _ id newParent) ?_ rfl fun _ _ hk => hk
    rintro k j ⟨sl', hsl', hkey⟩
    obtain ⟨sl, hsl, hrec, _⟩ := (Calm.reparent s.table id newParent).origin j sl' hsl'
    exact ⟨sl, hsl, by rw [← hrec, hkey]⟩

/-! ## Runs -/

/-- The logic of the adapter with what is known of the keys. -/
def keyLogic (P : PathFilesystem) : Logic (service (pathNodeFs P)) PathToken :=
  (pathLogic P False).strengthen fun s T => Stocked s.table s.fs.ns T

/-- Nothing is known of the keys at the start but that of the root. -/
lemma stocked_new : Stocked (Runtime.new (pathNodeFs P)).table Namespace.new 0 := by
  constructor
  · intro p hp
    exact absurd hp List.not_mem_nil
  · intro _ k i hk
    have hroot := slot_set (NodeTable.new : NodeTable (pathNodeFs P).Node) NodeId.ROOT NodeId.ROOT
      (rootSlot (pathNodeFs P))
    rcases hk with hk | hk
    · rw [show Namespace.new.idForNode k = _ from
        BTreeMap.lookup_insert_ite _ 1 k NodeId.ROOT] at hk
      split at hk
      · next h =>
        obtain rfl := Option.some.inj hk
        exact ⟨rootSlot (pathNodeFs P), hroot.trans (if_pos rfl), h.symm⟩
      · cases hk
    · exact absurd hk pending_zero

/-- What is known of the keys holds in every configuration of every run. -/
theorem key_holds {c : Config (service (pathNodeFs P))}
    (hr : Run anyAction (start (pathNodeFs P)) c) : (keyLogic P).Holds c := by
  have hsound : (keyLogic P).Sound anyAction (start (pathNodeFs P)) := by
    refine Logic.Sound.strengthen (path_sound fun h => h.elim) ?_ ?_ ?_
    · intro c n id req i k ch r s f C g hr _ he hC hi hs hg hi'
      obtain ⟨_, hinv⟩ := (holds_any hr).inv
      exact hC.stocked hinv.wf he hi hs hg hi'
    · intro c req s f _ hs h
      obtain rfl := Option.some.inj hs
      rw [show (pathLogic P False).init c.threads.length req + f = f from zero_add f]
      cases req with
      | _ => exact h
    · intro c n id req a g f _ _ hpost h
      obtain rfl : g = 0 := hpost
      rw [zero_add] at h
      exact h
  exact Logic.holds_of_run hsound (Logic.holds_nil ⟨pathInv_new, stocked_new⟩) hr

/-- The entries of the namespace are those of the live nodes. -/
structure KeysExact (s : RtState (PathNodeFs.sig P)) : Prop where
  /-- The key of a live node leads to its own number. -/
  entry : ∀ i sl, s.table.slot i = some sl →
    s.fs.ns.idForNode sl.record.payload.key = some i
  /-- Every entry is that of a live node. -/
  backed : ∀ k i, s.fs.ns.idForNode k = some i →
    ∃ sl, s.table.slot i = some sl ∧ sl.record.payload.key = k
  /-- There are as many entries as live nodes. -/
  size : s.fs.ns.keys.keys.card = s.table.map.keys.card

/-- The namespace has exactly the entries of the live nodes as long as no node was reclaimed: with
any inner filesystem and any interleaving, whenever all requests have been answered. -/
theorem keys_exact_iff {c : Config (service (pathNodeFs P))}
    (hr : Run anyAction (start (pathNodeFs P)) c) (hq : c.Quiet) :
    KeysExact c.state ↔ Run NoReclaim (start (pathNodeFs P)) c := by
  have hinv : PathInv False c.state (pathView 0) ∧ Stocked c.state.table c.state.fs.ns 0 :=
    (key_holds hr).inv_quiet hq
  obtain ⟨hpath, hstocked⟩ := hinv
  rw [← reclaimed_nil_iff hr]
  constructor
  · intro hexact
    by_contra hne
    obtain ⟨p, hp⟩ := List.exists_mem_of_ne_nil _ hne
    obtain ⟨hkey, hnot⟩ := hstocked.gone p hp
    obtain ⟨sl, hsl, hsame⟩ := hexact.backed _ _ hkey
    exact hnot p.1 ⟨sl, hsl, hsame⟩
  · intro hnil
    have hentry : ∀ i sl, c.state.table.slot i = some sl →
        c.state.fs.ns.idForNode sl.record.payload.key = some i := by
      intro i sl hsl
      rcases hpath.keyed.slotKey i sl hsl with hk | ⟨x, hx, _⟩
      · exact hk
      · exact absurd hx (Multiset.notMem_zero x)
    have hbacked : ∀ k i, c.state.fs.ns.idForNode k = some i →
        ∃ sl, c.state.table.slot i = some sl ∧ sl.record.payload.key = k :=
      fun k i hk => hstocked.kept hnil k i (Or.inl hk)
    refine ⟨hentry, hbacked, le_antisymm ?_ ?_⟩
    · exact BTreeMap.card_keys_le id (fun sl => sl.record.payload.key) hbacked
    · refine BTreeMap.card_keys_le (fun sl => sl.record.payload.key) id ?_
      intro i sl hsl
      exact ⟨i, hentry i sl hsl, rfl⟩

/-- A file is made in the root. -/
private def made : List (Action (service PathSample.fs)) :=
  PathSample.whole 0 19 (PathSample.mknod [97])

/-- A run without a forgotten node. -/
theorem keys_exact_made : ∃ c : Config (service PathSample.fs),
    Run NoReclaim (start PathSample.fs) c ∧ c.Quiet ∧ c.state.fs.ns.idForNode 2 = some 2 ∧
      KeysExact c.state := by
  have hr := PathSample.run_after PathSample.anyAction_of_check made (by decide +kernel)
  have hq : (PathSample.after PathSample.anyCheck made).Quiet :=
    PathSample.quiet_of_all (by decide +kernel)
  have hno := (reclaimed_nil_iff hr).mp (by decide +kernel)
  exact ⟨_, hno, hq, by decide +kernel, (keys_exact_iff hr hq).mpr hno⟩

/-- A file is made, unlinked and forgotten. -/
private def reclaimed : List (Action (service PathSample.fs)) :=
  made ++ PathSample.whole 1 8 (.treeOp (.unlink NodeId.ROOT [97]) {}) ++
    PathSample.whole 2 1 (.forget 2 1)

/-- An entry that leads to a dead node. -/
lemma not_keysExact {s : RtState (PathNodeFs.sig P)} {k : ℕ} {i : NodeId}
    (hkey : s.fs.ns.idForNode k = some i) (hdead : s.table.slot i = none) : ¬ KeysExact s := by
  intro h
  obtain ⟨sl, hsl, _⟩ := h.backed k i hkey
  rw [hdead] at hsl
  cases hsl

/-- A sequential run after which the key of a reclaimed node still leads to its number: the
namespace has more entries than there are nodes. -/
theorem keys_not_exact : ∃ c : Config (service PathSample.fs),
    Run oneAtATime (start PathSample.fs) c ∧ c.Quiet ∧ c.state.table.slot 2 = none ∧
      c.state.fs.ns.idForNode 2 = some 2 ∧ ¬ KeysExact c.state := by
  have hr := PathSample.run_after PathSample.oneAtATime_of_check reclaimed (by decide +kernel)
  have hq : (PathSample.after PathSample.aloneCheck reclaimed).Quiet :=
    PathSample.quiet_of_all (by decide +kernel)
  have hdead : (PathSample.after PathSample.aloneCheck reclaimed).state.table.slot 2 = none := by
    rw [← Option.isNone_iff_eq_none]
    decide +kernel
  have hkey : (PathSample.after PathSample.aloneCheck reclaimed).state.fs.ns.idForNode 2 =
      some 2 := by decide +kernel
  generalize PathSample.after PathSample.aloneCheck reclaimed = c at hr hq hdead hkey
  exact ⟨c, hr, hq, hdead, hkey, not_keysExact hkey hdead⟩

end TypedFuse
