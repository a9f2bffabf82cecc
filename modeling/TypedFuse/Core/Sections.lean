import TypedFuse.Core.Tokens

/-!
# Every section keeps the invariant

One lemma for each instruction of the runtime: performed in a state that satisfies the invariant
with the tokens of its contract, it answers as the contract says and keeps the invariant with the
tokens that the contract gives.  `RtContract.exec` collects them.
-/

namespace TypedFuse

open Conc NodeTable

section Tables

variable {N : Type} {t t' : NodeTable N} {c c' : Counter} {id i : NodeId} {r : Option (Slot N)}

lemma count_incr_ne (h : t.incr c id = some (r, t')) (hc : c' ≠ c) :
    t'.count c' i = t.count c' i := by
  rw [count_incr h, if_neg (fun hh => hc hh.1), add_zero]

lemma count_decr_ne (t : NodeTable N) (n : ℕ) (hc : c' ≠ c) :
    (t.decr c n id).count c' i = t.count c' i := by
  rw [count_decr, if_neg (fun hh => hc hh.1), Nat.sub_zero]

lemma slot_incr_dead (h : t.incr c id = some (r, t')) (hs : t.slot i = none) :
    t'.slot i = none := by
  rw [slot_incr h, hs, Option.map_none]

lemma slot_decr_dead {n : ℕ} (hs : t.slot i = none) : (t.decr c n id).slot i = none := by
  cases hs' : (t.decr c n id).slot i with
  | none => rfl
  | some s =>
    obtain ⟨s₀, hs₀, _⟩ := slot_of_slot_decr hs'
    rw [hs] at hs₀
    cases hs₀

end Tables

variable {σ : FsSig} {E : Env} {s s' : RtState σ} {v : View}

/-- A section that changes link counts, parents or the set of live inodes only. -/
lemma Inv.setTable (hi : Inv E s v) {t' : NodeTable σ.Node} (hwf : t'.WF)
    (hkept : Kept s.table t')
    (hcount : ∀ c, c ≠ .links → ∀ i, t'.count c i = s.table.count c i)
    (hnew : E.stable → ∀ i ∈ s.hist.resolving, s.table.slot i = none → t'.slot i = none) :
    Inv E { s with table := t' } v where
  wf := hwf
  leased := hi.leased.congr hkept (hcount .leases (by decide)) rfl rfl
  lookedUp := hi.lookedUp.congr (hcount .lookups (by decide)) rfl rfl rfl rfl rfl
  opens := hi.opens.congr (hcount .opens (by decide)) (fun _ => rfl) rfl rfl
  resolved := hi.resolved.congr hkept hnew rfl
  vanished := hi.vanished
  handles := hi.handles

/-- What the filesystem's own references to nodes need: dropping one is giving back a lease. -/
lemma Inv.dropRef_eq (hi : Inv E s v) {ref : NodeRef σ.Node} (hm : ref.key ∈ s.hist.fsRefs) :
    s.table.dropRef ref = s.table.decr .leases 1 ref.id := by
  obtain ⟨sl, hsl, hrec⟩ := hi.leased.fsLive _ hm
  exact dropRef_eq_decr hsl hrec

/-- An instruction of a callback keeps the invariant without touching tokens. -/
lemma Inv.execFs (hi : Inv E s v) {n : ℕ} {i : FsInstr σ} {ch : Option σ.Choice} {r : i.Resp}
    (he : s.execFs n i ch = some (r, s'))
    (hstable : E.stable → ∀ payload parent id t', i = .insert payload parent →
      s.table.insert payload parent = some (id, t') → id ∉ s.hist.resolving) :
    Inv E s' v := by
  cases i with
  | get id =>
    obtain ⟨⟨o, t'⟩, hg, heq⟩ := Option.map_eq_some_iff.mp he
    obtain ⟨rfl, rfl⟩ := Prod.mk.inj heq
    rcases Leased.get_cases hg with ⟨rfl, _, rfl⟩ | ⟨sl, rfl, hsl, hinc⟩
    · simpa [refKeys] using hi
    · exact {
        wf := hi.wf.incr hinc
        leased := hi.leased.getFs hsl hinc rfl rfl
        lookedUp := hi.lookedUp.congr (fun _ => count_incr_ne hinc (by decide)) rfl rfl rfl rfl rfl
        opens := hi.opens.congr (fun _ => count_incr_ne hinc (by decide)) (fun _ => rfl) rfl rfl
        resolved := hi.resolved.congr (.incr hinc) (fun _ _ _ => slot_incr_dead hinc) rfl
        vanished := hi.vanished
        handles := hi.handles.congr rfl rfl }
  | contains id =>
    obtain ⟨_, rfl⟩ := Prod.mk.inj (Option.some.inj he)
    exact hi
  | insert payload parent =>
    obtain ⟨⟨id, t'⟩, hins, heq⟩ := Option.map_eq_some_iff.mp he
    obtain ⟨_, rfl⟩ := Prod.mk.inj heq
    refine hi.setTable (hi.wf.insert hins) (.insert hi.wf hins)
      (fun c hc i => count_insert hi.wf hins hc i) ?_
    intro hst i hmem hdead
    obtain ⟨gen, hslot⟩ := slot_insert hins
    have hne : i ≠ id := by
      rintro rfl
      exact hstable hst payload parent i t' rfl hins hmem
    rw [hslot, if_neg hne, hdead]
  | reparent id newParent =>
    obtain ⟨_, rfl⟩ := Prod.mk.inj (Option.some.inj he)
    refine hi.setTable (hi.wf.reparent id newParent) (.reparent _ _ _)
      (fun c _ i => count_reparent _ c id newParent i) ?_
    intro _ i _ hdead
    rw [slot_reparent, hdead, Option.map_none]
  | addLink id =>
    obtain ⟨t', hadd, heq⟩ := Option.map_eq_some_iff.mp he
    obtain ⟨_, rfl⟩ := Prod.mk.inj heq
    obtain ⟨⟨o, t₁⟩, hinc, rfl⟩ := Option.map_eq_some_iff.mp hadd
    exact hi.setTable (hi.wf.incr hinc) (.incr hinc) (fun c hc i => count_incr_ne hinc hc)
      (fun _ _ _ => slot_incr_dead hinc)
  | removeLink id =>
    obtain ⟨_, rfl⟩ := Prod.mk.inj (Option.some.inj he)
    exact hi.setTable (hi.wf.decr _ _ _) (.decr _ _ _ _) (fun c hc i => count_decr_ne _ 1 hc)
      (fun _ _ _ => slot_decr_dead)
  | dropRef ref =>
    change (if ref.key ∈ s.hist.fsRefs then some ((), _) else none) = some (r, s') at he
    split at he
    · next hm =>
      obtain ⟨_, rfl⟩ := Prod.mk.inj (Option.some.inj he)
      have hdrop := hi.dropRef_eq hm
      rw [hdrop]
      exact {
        wf := hi.wf.decr _ _ _
        leased := hi.leased.dropFs hm rfl rfl
        lookedUp := hi.lookedUp.congr (fun _ => count_decr_ne _ 1 (by decide)) rfl rfl rfl rfl rfl
        opens := hi.opens.congr (fun _ => count_decr_ne _ 1 (by decide)) (fun _ => rfl) rfl rfl
        resolved := hi.resolved.congr (.decr _ _ _ _) (fun _ _ _ => slot_decr_dead) rfl
        vanished := hi.vanished
        handles := hi.handles.congr rfl rfl }
    · cases he
  | own i =>
    cases ch with
    | none => cases he
    | some ch =>
      obtain ⟨⟨a, fs'⟩, _, heq⟩ := Option.map_eq_some_iff.mp he
      obtain ⟨_, rfl⟩ := Prod.mk.inj heq
      exact ⟨hi.wf, hi.leased, hi.lookedUp, hi.opens, hi.resolved, hi.vanished, hi.handles⟩

/-! ## Sections of the runtime -/

section Runtime

variable {n : ℕ} {ch : Option σ.Choice}

/-- `Cx::get` by the runtime. -/
lemma Inv.node (hi : Inv E s v) {id : NodeId} {r : Option (NodeRef σ.Node)}
    (he : s.exec n (.node id) ch = some (r, s')) :
    (r = none ∧ s.table.slot id = none ∧ Inv E s' v) ∨
      ∃ ref gen, r = some ref ∧ ref.id = id ∧ Inv E s' (v.add (ref.token gen)) := by
  obtain ⟨⟨o, t'⟩, hg, heq⟩ := Option.map_eq_some_iff.mp he
  obtain ⟨rfl, rfl⟩ := Prod.mk.inj heq
  rcases Leased.get_cases hg with ⟨rfl, hdead, rfl⟩ | ⟨sl, rfl, hsl, hinc⟩
  · exact Or.inl ⟨rfl, hdead, by simpa [refKeys] using hi⟩
  · refine Or.inr ⟨⟨id, sl.record⟩, sl.generation, rfl, rfl, ?_⟩
    exact {
      wf := hi.wf.incr hinc
      leased := hi.leased.getRt hsl hinc rfl rfl
      lookedUp := hi.lookedUp.congr (fun _ => count_incr_ne hinc (by decide)) rfl rfl rfl rfl rfl
      opens := hi.opens.congr (fun _ => count_incr_ne hinc (by decide)) (fun _ => rfl) rfl rfl
      resolved := hi.resolved.congr (.incr hinc) (fun _ _ _ => slot_incr_dead hinc) rfl
      vanished := hi.vanished
      handles := hi.handles.congr rfl rfl }

/-- The slot behind a `NodeRef` of a running thread. -/
lemma Inv.slot_of_lease {ref : NodeRef σ.Node} {gen : ℕ} (hi : Inv E s (v.add (ref.token gen))) :
    ∃ sl, s.table.slot ref.id = some sl ∧ sl.record.addr = ref.record.addr ∧
      sl.generation = gen := by
  obtain ⟨sl, hsl, heq⟩ := hi.leased.rtLive _ (Multiset.mem_cons_self _ _)
  simp only [Slot.leased, Prod.mk.injEq, true_and] at heq
  exact ⟨sl, hsl, heq.1, heq.2⟩

/-- Dropping a `NodeRef` of the runtime. -/
lemma Inv.dropNode {ref : NodeRef σ.Node} {gen : ℕ} (hi : Inv E s (v.add (ref.token gen)))
    {r : Unit} (he : s.exec n (.dropNode ref) ch = some (r, s')) : Inv E s' v := by
  obtain ⟨_, rfl⟩ := Prod.mk.inj (Option.some.inj he)
  obtain ⟨sl, hsl, hrec, _⟩ := hi.slot_of_lease
  rw [dropRef_eq_decr hsl hrec]
  exact {
    wf := hi.wf.decr _ _ _
    leased := hi.leased.dropRt rfl rfl
    lookedUp := hi.lookedUp.congr (fun _ => count_decr_ne _ 1 (by decide)) rfl rfl rfl rfl rfl
    opens := hi.opens.congr (fun _ => count_decr_ne _ 1 (by decide)) (fun _ => rfl) rfl rfl
    resolved := hi.resolved.congr (.decr _ _ _ _) (fun _ _ _ => slot_decr_dead) rfl
    vanished := hi.vanished
    handles := hi.handles.congr rfl rfl }

/-- A callback has returned a node identifier. -/
lemma Inv.denote (hi : Inv E s v) {id : NodeId} {den : Option (ℕ × ℕ)}
    (he : s.exec n (.denote id) ch = some (den, s')) : Inv E s' (v.add (.resolved id den)) := by
  obtain ⟨rfl, rfl⟩ := Prod.mk.inj (Option.some.inj he)
  refine ⟨hi.wf, ⟨hi.leased.rtRefs, hi.leased.rtLive, hi.leased.fsLive, hi.leased.count⟩,
    hi.lookedUp.congr (fun _ => rfl) rfl rfl rfl rfl rfl,
    hi.opens.congr (fun _ => rfl) (fun _ => rfl) rfl rfl, ?_, hi.vanished,
    hi.handles.congr rfl rfl⟩
  refine ⟨?_, ?_⟩
  · simp only [View.add, Multiset.map_cons, hi.resolved.resolving]
  · intro hst x hx
    rcases Multiset.mem_cons.mp hx with rfl | hx
    · exact Or.inr rfl
    · exact hi.resolved.same hst x hx

/-- The first section of `entry_for`. -/
lemma Inv.lease {id : NodeId} {den : Option (ℕ × ℕ)} (hi : Inv E s (v.add (.resolved id den)))
    {r : Option (NodeRef σ.Node)} (he : s.exec n (.lease id) ch = some (r, s')) :
    (r = none ∧ Inv E s' (v.add (.vanished n))) ∨
      ∃ ref gen, r = some ref ∧ ref.id = id ∧
        (E.stable → den = some (ref.record.addr, gen)) ∧
        Inv E s' (v.add (ref.token gen)) := by
  obtain ⟨⟨o, t'⟩, hg, heq⟩ := Option.map_eq_some_iff.mp he
  obtain ⟨rfl, rfl⟩ := Prod.mk.inj heq
  have hres : ∀ {t : NodeTable σ.Node} {h : History}, Resolved E.stable t s.hist
      ((id, den) ::ₘ v.resolved) → h.resolving = s.hist.resolving.erase id →
      Resolved E.stable t h v.resolved := by
    intro t h hr hh
    refine ⟨?_, fun hst x hx => hr.same hst x (Multiset.mem_cons_of_mem hx)⟩
    rw [hh, hr.resolving, Multiset.map_cons, Multiset.erase_cons_head]
  rcases Leased.get_cases hg with ⟨rfl, _, rfl⟩ | ⟨sl, rfl, hsl, hinc⟩
  · refine Or.inl ⟨rfl, ?_⟩
    exact {
      wf := hi.wf
      leased := hi.leased.congr (.refl _) (fun _ => rfl) (by simp [refKeys]) rfl
      lookedUp := hi.lookedUp.congr (fun _ => rfl) rfl rfl rfl rfl rfl
      opens := hi.opens.congr (fun _ => rfl) (fun _ => rfl) rfl rfl
      resolved := hres hi.resolved rfl
      vanished := by simp [View.add, hi.vanished]
      handles := hi.handles.congr rfl rfl }
  · refine Or.inr ⟨⟨id, sl.record⟩, sl.generation, rfl, rfl, ?_, ?_⟩
    · intro hst
      rcases hi.resolved.same hst (id, den) (Multiset.mem_cons_self _ _) with hdead | hden
      · rw [hsl] at hdead
        cases hdead
      · rw [hsl] at hden
        exact hden.symm
    · exact {
        wf := hi.wf.incr hinc
        leased := hi.leased.getRt hsl hinc rfl rfl
        lookedUp := hi.lookedUp.congr (fun _ => count_incr_ne hinc (by decide)) rfl rfl rfl rfl rfl
        opens := hi.opens.congr (fun _ => count_incr_ne hinc (by decide)) (fun _ => rfl) rfl rfl
        resolved := hres
          (hi.resolved.congr (.incr hinc) (fun _ _ _ => slot_incr_dead hinc) rfl) rfl
        vanished := hi.vanished
        handles := hi.handles.congr rfl rfl }

/-- Counting a lookup of a live node. -/
lemma Inv.addLookup (hi : Inv E s v) {id : NodeId} {r : Option ℕ}
    (he : s.addLookup n id = some (r, s')) :
    (r = none ∧ s.table.slot id = none ∧ Inv E s' v) ∨
      ∃ sl, r = some sl.generation ∧ s.table.slot id = some sl ∧
        Inv E s' (v.add (.lookup n id)) := by
  obtain ⟨⟨o, t'⟩, hadd, heq⟩ := Option.map_eq_some_iff.mp he
  obtain ⟨rfl, rfl⟩ := Prod.mk.inj heq
  obtain ⟨⟨o', t₁⟩, hinc, heq'⟩ := Option.map_eq_some_iff.mp hadd
  obtain ⟨rfl, rfl⟩ := Prod.mk.inj heq'
  rcases incr_cases hinc with ⟨rfl, hdead, rfl⟩ | ⟨sl, rfl, hsl, _⟩
  · exact Or.inl ⟨rfl, hdead, hi⟩
  · refine Or.inr ⟨sl, rfl, hsl, ?_⟩
    exact {
      wf := hi.wf.incr hinc
      leased := hi.leased.congr (.incr hinc) (fun _ => count_incr_ne hinc (by decide)) rfl rfl
      lookedUp := hi.lookedUp.grant hinc rfl rfl rfl rfl rfl
      opens := hi.opens.congr (fun _ => count_incr_ne hinc (by decide)) (fun _ => rfl) rfl rfl
      resolved := hi.resolved.congr (.incr hinc) (fun _ _ _ => slot_incr_dead hinc) rfl
      vanished := hi.vanished
      handles := hi.handles.congr rfl rfl }

/-- The last section of `entry_for`: the lease keeps the node and its generation. -/
lemma Inv.grant {ref : NodeRef σ.Node} {gen : ℕ} (hi : Inv E s (v.add (ref.token gen)))
    {r : Option ℕ} (he : s.exec n (.grant ref.id) ch = some (r, s')) :
    r = some gen ∧ Inv E s' ((v.add (ref.token gen)).add (.lookup n ref.id)) := by
  obtain ⟨sl, hsl, _, hgen⟩ := hi.slot_of_lease
  rcases hi.addLookup he with ⟨_, hdead, _⟩ | ⟨sl', rfl, hsl', hi'⟩
  · rw [hsl] at hdead
    cases hdead
  · obtain rfl := Option.some.inj (hsl.symm.trans hsl')
    exact ⟨by rw [hgen], hi'⟩

/-- `forget`. -/
lemma Inv.forget {ino m : ℕ}
    (hi : Inv E s { v with lookups := Multiset.replicate m (n, ino) + v.lookups }) {r : Unit}
    (he : s.exec n (.forget ino m) ch = some (r, s')) : Inv E s' v := by
  obtain ⟨_, rfl⟩ := Prod.mk.inj (Option.some.inj he)
  exact {
    wf := hi.wf.decr _ _ _
    leased := hi.leased.congr (.decr _ _ _ _) (fun _ => count_decr_ne _ m (by decide)) rfl rfl
    lookedUp := hi.lookedUp.forget rfl rfl rfl rfl rfl
    opens := hi.opens.congr (fun _ => count_decr_ne _ m (by decide)) (fun _ => rfl) rfl rfl
    resolved := hi.resolved.congr (.decr _ _ _ _) (fun _ _ _ => slot_decr_dead) rfl
    vanished := hi.vanished
    handles := hi.handles.congr rfl rfl }

/-- Unwinding gives up lookups. -/
lemma Inv.leak {ids : List NodeId} (hstrict : ¬(E.honest ∧ E.noPanic))
    (hi : Inv E s { v with lookups := Multiset.map (Prod.mk n) ↑ids + v.lookups }) {r : Unit}
    (he : s.exec n (.leak ids) ch = some (r, s')) : Inv E s' v := by
  obtain ⟨_, rfl⟩ := Prod.mk.inj (Option.some.inj he)
  exact {
    wf := hi.wf
    leased := hi.leased.congr (.refl _) (fun _ => rfl) rfl rfl
    lookedUp := hi.lookedUp.leak hstrict rfl rfl rfl rfl rfl
    opens := hi.opens.congr (fun _ => rfl) (fun _ => rfl) rfl rfl
    resolved := hi.resolved.congr (.refl _) (fun _ _ _ hd => hd) rfl
    vanished := hi.vanished
    handles := hi.handles.congr rfl rfl }

/-- `add_open`. -/
lemma Inv.addOpen (hi : Inv E s v) {ino : ℕ} {r : Bool}
    (he : s.exec n (.addOpen ino) ch = some (r, s')) :
    (r = false ∧ s.table.slot ino = none ∧ Inv E s' v) ∨
      (r = true ∧ Inv E s' (v.add (.opening ino))) := by
  obtain ⟨⟨b, t'⟩, hadd, heq⟩ := Option.map_eq_some_iff.mp he
  obtain ⟨rfl, rfl⟩ := Prod.mk.inj heq
  obtain ⟨⟨o, t₁⟩, hinc, heq'⟩ := Option.map_eq_some_iff.mp hadd
  obtain ⟨rfl, rfl⟩ := Prod.mk.inj heq'
  rcases incr_cases hinc with ⟨rfl, hdead, rfl⟩ | ⟨sl, rfl, _, _⟩
  · exact Or.inl ⟨rfl, hdead, hi⟩
  · refine Or.inr ⟨rfl, ?_⟩
    exact {
      wf := hi.wf.incr hinc
      leased := hi.leased.congr (.incr hinc) (fun _ => count_incr_ne hinc (by decide)) rfl rfl
      lookedUp := hi.lookedUp.congr (fun _ => count_incr_ne hinc (by decide)) rfl rfl rfl rfl rfl
      opens := hi.opens.addOpen hinc rfl rfl
      resolved := hi.resolved.congr (.incr hinc) (fun _ _ _ => slot_incr_dead hinc) rfl
      vanished := hi.vanished
      handles := hi.handles.congr rfl rfl }

/-- `remove_open`. -/
lemma Inv.removeOpen {ino : ℕ} (hi : Inv E s (v.add (.closing ino))) {r : Unit}
    (he : s.exec n (.removeOpen ino) ch = some (r, s')) : Inv E s' v := by
  obtain ⟨_, rfl⟩ := Prod.mk.inj (Option.some.inj he)
  exact {
    wf := hi.wf.decr _ _ _
    leased := hi.leased.congr (.decr _ _ _ _) (fun _ => count_decr_ne _ 1 (by decide)) rfl rfl
    lookedUp := hi.lookedUp.congr (fun _ => count_decr_ne _ 1 (by decide)) rfl rfl rfl rfl rfl
    opens := hi.opens.removeOpen rfl rfl
    resolved := hi.resolved.congr (.decr _ _ _ _) (fun _ _ _ => slot_decr_dead) rfl
    vanished := hi.vanished
    handles := hi.handles.congr rfl rfl }

/-- What is known of the references to nodes and of lookups is the same in two histories. -/
structure History.SameNodes (h h' : History) : Prop where
  rtRefs : h'.rtRefs = h.rtRefs
  fsRefs : h'.fsRefs = h.fsRefs
  pending : h'.pending = h.pending
  held : h'.held = h.held
  leaked : h'.leaked = h.leaked
  granted : h'.granted = h.granted
  forgotten : h'.forgotten = h.forgotten
  resolving : h'.resolving = h.resolving
  vanished : h'.vanished = h.vanished

/-- A section on the handle table or on a handle record. -/
lemma Inv.setHandles (hi : Inv E s v) {hs' : Handles σ.Payload} {h' : History} {o' : Owners}
    {took' : Multiset (ℕ × HandleKind × ℕ)} (op cl : Multiset ℕ)
    (hopens : Opens s.table hs' h' op cl) (hhandles : HandleInv hs' h' o' took')
    (hsame : s.hist.SameNodes h') :
    Inv E { s with handles := hs', hist := h' }
      { v with opening := op, closing := cl, owners := o', took := took' } where
  wf := hi.wf
  leased := hi.leased.congr (.refl _) (fun _ => rfl) hsame.rtRefs hsame.fsRefs
  lookedUp := hi.lookedUp.congr (fun _ => rfl) hsame.pending hsame.held hsame.leaked hsame.granted
    hsame.forgotten
  opens := hopens
  resolved := hi.resolved.congr (.refl _) (fun _ _ _ hd => hd) hsame.resolving
  vanished := hsame.vanished.trans hi.vanished
  handles := hhandles

/-- Registering a handle. -/
lemma Inv.addHandle {k : HandleKind} {node : NodeId} {payload : σ.Payload k}
    (hi : Inv E s (v.add (.opening node))) {r : ℕ}
    (he : s.exec n (.addHandle k node payload) ch = some (r, s')) : Inv E s' v := by
  obtain ⟨⟨fh, hs'⟩, hadd, heq⟩ := Option.map_eq_some_iff.mp he
  obtain ⟨_, rfl⟩ := Prod.mk.inj heq
  refine hi.setHandles v.opening v.closing ⟨?_, hi.opens.closing, ?_⟩
    (hi.handles.add hadd rfl rfl) (by constructor <;> rfl)
  · simp only [hi.opens.opening, View.add, Multiset.erase_cons_head]
  · intro i
    have hc := hi.opens.count i
    simp only [View.add, Multiset.count_cons] at hc
    rw [hc, Handles.registered_add (hi.handles.table_fresh k) hadd]
    by_cases hni : node = i
    · simp only [hni, if_true]
      omega
    · simp only [hni, Ne.symm hni, if_false]
      omega

/-- Looking a handle up. -/
lemma Inv.findHandle (hi : Inv E s v) {k : HandleKind} {fh : ℕ} {r : Option HandleArc}
    (he : s.exec n (.findHandle k fh) ch = some (r, s')) :
    (r = none ∧ Inv E s' v) ∨ ∃ arc, r = some arc ∧ Inv E s' (v.add (.arc k arc.addr)) := by
  obtain ⟨⟨o, hs'⟩, hfind, heq⟩ := Option.map_eq_some_iff.mp he
  obtain ⟨rfl, rfl⟩ := Prod.mk.inj heq
  cases o with
  | none =>
    obtain rfl := Handles.find_none hfind
    exact Or.inl ⟨rfl, hi⟩
  | some arc =>
    obtain ⟨rfl, hh⟩ := hi.handles.find hfind
    have htab := Handles.find_table hfind
    refine Or.inr ⟨arc, rfl, hi.setHandles _ _ (hi.opens.congr (fun _ => rfl) ?_ rfl rfl) hh
      (by constructor <;> rfl)⟩
    intro i
    simp only [Handles.registered, htab]

/-- Removing a handle from the table. -/
lemma Inv.removeHandle (hi : Inv E s v) {k : HandleKind} {ino fh : ℕ} {r : Option HandleArc}
    (he : s.exec n (.removeHandle k ino fh) ch = some (r, s')) :
    (r = none ∧ Inv E s' v) ∨ ∃ arc, r = some arc ∧ arc.addr = fh ∧
      Inv E s' ((v.add (.closer k fh .removed)).add (.closing ino)) := by
  obtain ⟨rfl, rfl⟩ := Prod.mk.inj (Option.some.inj he)
  cases hrem : s.handles.remove k ino fh with
  | mk o hs' =>
    cases o with
    | none =>
      obtain rfl := Handles.remove_none hrem
      exact Or.inl ⟨rfl, hi⟩
    | some arc =>
      obtain ⟨haddr, hh⟩ : arc.addr = fh ∧ HandleInv hs'
          { s.hist with closing := ino ::ₘ s.hist.closing }
          { v.owners with closers := (k, fh, .removed) ::ₘ v.owners.closers } v.took :=
        hi.handles.remove hrem rfl rfl
      refine Or.inr ⟨arc, rfl, haddr, hi.setHandles v.opening (ino ::ₘ v.closing)
        ⟨hi.opens.opening, by simp [hi.opens.closing], ?_⟩ hh (by constructor <;> rfl)⟩
      intro i
      have hreg := Handles.registered_remove hrem i
      rw [hi.opens.count, Multiset.count_cons, ← hreg]
      by_cases hni : ino = i
      · simp only [hni, if_true]
        omega
      · simp only [hni, Ne.symm hni, if_false]
        omega

/-- Asking for a lease on a handle. -/
lemma Inv.acquire {k : HandleKind} {a : HandleArc} (hi : Inv E s (v.add (.arc k a.addr))) {r : Bool}
    (he : s.exec n (.acquire k a) ch = some (r, s')) :
    (r = true ∧ Inv E s' ((v.add (.handle k a.addr)).add (.arc k a.addr))) ∨
      (r = false ∧ Inv E s' (v.add (.arc k a.addr))) := by
  obtain ⟨⟨granted, hs'⟩, hacq, heq⟩ := Option.map_eq_some_iff.mp he
  obtain ⟨rfl, rfl⟩ := Prod.mk.inj heq
  have hreg := Handles.registered_acquire hacq
  cases granted with
  | true =>
    exact Or.inl ⟨rfl, hi.setHandles _ _ (hi.opens.congr (fun _ => rfl) hreg rfl rfl)
      (hi.handles.acquire hacq rfl rfl) (by constructor <;> rfl)⟩
  | false =>
    exact Or.inr ⟨rfl, hi.setHandles _ _ (hi.opens.congr (fun _ => rfl) hreg rfl rfl)
      (hi.handles.acquire hacq rfl rfl) (by constructor <;> rfl)⟩

/-- Reading through a lease. -/
lemma Inv.deref {k : HandleKind} {a : HandleArc} (hi : Inv E s v) {r : σ.Payload k}
    (he : s.exec n (.deref k a) ch = some (r, s')) : Inv E s' v := by
  obtain ⟨h, _, heq⟩ := Option.map_eq_some_iff.mp he
  obtain ⟨_, rfl⟩ := Prod.mk.inj heq
  exact hi

/-- Giving a lease on a handle back. -/
lemma Inv.dropLease {k : HandleKind} {a : HandleArc} (hi : Inv E s (v.add (.handle k a.addr)))
    {r : Unit} (he : s.exec n (.dropLease k a) ch = some (r, s')) :
    Inv E s' (v.add (.arc k a.addr)) := by
  obtain ⟨hs', hd, heq⟩ := Option.map_eq_some_iff.mp he
  obtain ⟨_, rfl⟩ := Prod.mk.inj heq
  refine hi.setHandles _ _ (hi.opens.congr (fun _ => rfl) ?_ rfl rfl)
    (hi.handles.dropLease hd rfl rfl) (by constructor <;> rfl)
  obtain ⟨cell, _, rfl⟩ := Option.map_eq_some_iff.mp hd
  exact fun _ => rfl

/-- Dropping an `Arc` of a handle. -/
lemma Inv.dropArc {k : HandleKind} {a : HandleArc} (hi : Inv E s (v.add (.arc k a.addr)))
    {r : Unit} (he : s.exec n (.dropArc k a) ch = some (r, s')) : Inv E s' v := by
  obtain ⟨hs', hd, heq⟩ := Option.map_eq_some_iff.mp he
  obtain ⟨_, rfl⟩ := Prod.mk.inj heq
  refine hi.setHandles _ _ (hi.opens.congr (fun _ => rfl) ?_ rfl rfl)
    (hi.handles.dropArc hd rfl rfl) (by constructor <;> rfl)
  obtain ⟨cell, _, rfl⟩ := Option.map_eq_some_iff.mp hd
  exact fun _ => rfl

/-- Setting `closing`. -/
lemma Inv.close {k : HandleKind} {a : HandleArc}
    (hi : Inv E s (v.add (.closer k a.addr .removed))) {r : Bool}
    (he : s.exec n (.close k a) ch = some (r, s')) :
    Inv E s' (v.add (.closer k a.addr (if r then .drained else .closing))) := by
  obtain ⟨⟨b, hs'⟩, hc, heq⟩ := Option.map_eq_some_iff.mp he
  obtain ⟨rfl, rfl⟩ := Prod.mk.inj heq
  refine hi.setHandles _ _ (hi.opens.congr (fun _ => rfl) ?_ rfl rfl) (hi.handles.close hc)
    (by constructor <;> rfl)
  obtain ⟨cell, _, heq'⟩ := Option.map_eq_some_iff.mp hc
  split at heq'
  · obtain ⟨_, rfl⟩ := Prod.mk.inj heq'
    exact fun _ => rfl
  · obtain ⟨_, rfl⟩ := Prod.mk.inj heq'
    exact fun _ => rfl

/-- The end of the wait for the leases. -/
lemma Inv.drain {k : HandleKind} {a : HandleArc}
    (hi : Inv E s (v.add (.closer k a.addr .closing))) {r : Unit}
    (he : s.exec n (.drain k a) ch = some (r, s')) :
    Inv E s' (v.add (.closer k a.addr .drained)) := by
  obtain ⟨hs', hd, heq⟩ := Option.map_eq_some_iff.mp he
  obtain ⟨_, rfl⟩ := Prod.mk.inj heq
  refine hi.setHandles _ _ (hi.opens.congr (fun _ => rfl) ?_ rfl rfl) (hi.handles.drain hd)
    (by constructor <;> rfl)
  unfold Handles.drain at hd
  split at hd
  · split at hd
    · obtain rfl := Option.some.inj hd
      exact fun _ => rfl
    · cases hd
  · cases hd

/-- Moving the payload out. -/
lemma Inv.take {k : HandleKind} {a : HandleArc}
    (hi : Inv E s (v.add (.closer k a.addr .drained))) {r : σ.Payload k}
    (he : s.exec n (.take k a) ch = some (r, s')) :
    Inv E s' ((v.add (.took n k a.addr)).add (.arc k a.addr)) := by
  obtain ⟨⟨payload, hs'⟩, ht, heq⟩ := Option.map_eq_some_iff.mp he
  obtain ⟨_, rfl⟩ := Prod.mk.inj heq
  refine hi.setHandles _ _ (hi.opens.congr (fun _ => rfl) ?_ rfl rfl)
    (hi.handles.take ht rfl rfl) (by constructor <;> rfl)
  unfold Handles.take at ht
  split at ht
  · split at ht
    · obtain ⟨_, rfl⟩ := Prod.mk.inj (Option.some.inj ht)
      exact fun _ => rfl
    · cases ht
  · cases ht

end Runtime

/-! ## Contracts are honoured -/

/-- Every instruction honours its contracts and keeps the invariant. -/
theorem RtContract.exec {n : ℕ} {ch : Option σ.Choice} {i : RtInstr σ}
    {C : Contract Token i.Resp} (hC : RtContract E n i C) {F : Multiset Token} {r : i.Resp}
    (he : s.exec n i ch = some (r, s')) (hi : Inv E s (view (C.take + F)))
    (hstable : E.stable → ∀ payload parent id t', i = .fs (.insert payload parent) →
      s.table.insert payload parent = some (id, t') → id ∉ s.hist.resolving) :
    ∃ g, C.give r g ∧ Inv E s' (view (g + F)) := by
  cases hC with
  | fs i =>
    simp only [Contract.free, zero_add] at hi
    refine ⟨0, rfl, ?_⟩
    rw [zero_add]
    refine hi.execFs he ?_
    rintro hst payload parent id t' rfl hins
    exact hstable hst payload parent id t' rfl hins
  | node id =>
    rw [zero_add] at hi
    rcases hi.node he with ⟨rfl, _, hi'⟩ | ⟨ref, gen, rfl, hid, hi'⟩
    · exact ⟨0, Or.inl ⟨rfl, rfl⟩, by rwa [zero_add]⟩
    · exact ⟨{ref.token gen}, Or.inr ⟨ref, gen, rfl, hid, rfl⟩, by rwa [view_single]⟩
  | nodeOpen id =>
    rw [view_single] at hi
    rcases hi.node he with ⟨rfl, hdead, _⟩ | ⟨ref, gen, rfl, hid, hi'⟩
    · obtain ⟨sl, hsl⟩ := hi.opens.live (Multiset.mem_cons_self _ _)
      rw [hsl] at hdead
      cases hdead
    · exact ⟨_, ⟨ref, gen, rfl, hid, rfl⟩, by rwa [view_pair]⟩
  | dropNode ref gen =>
    rw [view_single] at hi
    exact ⟨0, rfl, by rw [zero_add]; exact hi.dropNode he⟩
  | denote id =>
    rw [zero_add] at hi
    exact ⟨_, rfl, by rw [view_single]; exact hi.denote he⟩
  | lease id den =>
    rw [view_single] at hi
    rcases hi.lease he with ⟨rfl, hi'⟩ | ⟨ref, gen, rfl, hid, hden, hi'⟩
    · exact ⟨_, Or.inl ⟨rfl, rfl⟩, by rwa [view_single]⟩
    · exact ⟨_, Or.inr ⟨ref, gen, rfl, hid, rfl, hden⟩, by rwa [view_single]⟩
  | grant ref gen =>
    rw [view_single] at hi
    obtain ⟨rfl, hi'⟩ := hi.grant he
    refine ⟨_, ⟨rfl, rfl⟩, ?_⟩
    rw [add_comm {ref.token gen}, view_pair]
    exact hi'
  | plusEntry id =>
    obtain ⟨_, rfl⟩ := Prod.mk.inj (Option.some.inj he)
    exact ⟨0, rfl, hi⟩
  | retainLookup id =>
    rw [zero_add] at hi
    rcases hi.addLookup he with ⟨rfl, _, hi'⟩ | ⟨sl, rfl, _, hi'⟩
    · exact ⟨0, Or.inl ⟨rfl, rfl⟩, by rwa [zero_add]⟩
    · exact ⟨_, Or.inr ⟨_, rfl, rfl⟩, by rwa [view_single]⟩
  | forget ino m =>
    rw [show Multiset.replicate m (Token.lookup n ino) =
      (Multiset.replicate m ino).map (Token.lookup n) by rw [Multiset.map_replicate],
      view_lookups, Multiset.map_replicate] at hi
    exact ⟨0, rfl, by rw [zero_add]; exact hi.forget he⟩
  | leak ids hstrict =>
    rw [view_lookups] at hi
    exact ⟨0, rfl, by rw [zero_add]; exact hi.leak hstrict he⟩
  | addOpen ref gen =>
    rw [view_single] at hi
    obtain ⟨sl, hsl, _, _⟩ := hi.slot_of_lease
    rcases hi.addOpen he with ⟨_, hdead, _⟩ | ⟨rfl, hi'⟩
    · rw [hsl] at hdead
      cases hdead
    · refine ⟨_, ⟨rfl, rfl⟩, ?_⟩
      rw [add_comm {ref.token gen}, view_pair]
      exact hi'
  | addOpenCreated ino =>
    rw [view_single] at hi
    rcases hi.addOpen he with ⟨rfl, hdead, hi'⟩ | ⟨rfl, hi'⟩
    · refine ⟨_, Or.inr ⟨rfl, ?_, rfl⟩, by rwa [view_single]⟩
      intro hon
      obtain ⟨sl, hsl⟩ := hi.lookedUp.live hon (Multiset.mem_cons_self _ _)
      rw [hsl] at hdead
      cases hdead
    · refine ⟨_, Or.inl ⟨rfl, rfl⟩, ?_⟩
      rw [add_comm {Token.lookup n ino}, view_pair]
      exact hi'
  | removeOpen ino =>
    rw [view_single] at hi
    exact ⟨0, rfl, by rw [zero_add]; exact hi.removeOpen he⟩
  | parentOf ino =>
    obtain ⟨_, rfl⟩ := Prod.mk.inj (Option.some.inj he)
    exact ⟨0, rfl, hi⟩
  | addHandle k node payload =>
    rw [view_single] at hi
    exact ⟨0, rfl, by rw [zero_add]; exact hi.addHandle he⟩
  | discard k payload =>
    obtain ⟨_, rfl⟩ := Prod.mk.inj (Option.some.inj he)
    exact ⟨0, rfl, hi.setHandles _ _ (hi.opens.congr (fun _ => rfl) (fun _ => rfl) rfl rfl)
      (hi.handles.congr rfl rfl) (by constructor <;> rfl)⟩
  | findHandle k fh =>
    rw [zero_add] at hi
    rcases hi.findHandle he with ⟨rfl, hi'⟩ | ⟨arc, rfl, hi'⟩
    · exact ⟨0, Or.inl ⟨rfl, rfl⟩, by rwa [zero_add]⟩
    · exact ⟨_, Or.inr ⟨arc, rfl, rfl⟩, by rwa [view_single]⟩
  | removeHandle k ino fh =>
    rw [zero_add] at hi
    rcases hi.removeHandle he with ⟨rfl, hi'⟩ | ⟨arc, rfl, haddr, hi'⟩
    · exact ⟨0, Or.inl ⟨rfl, rfl⟩, by rwa [zero_add]⟩
    · exact ⟨_, Or.inr ⟨arc, rfl, haddr, rfl⟩, by rwa [view_pair]⟩
  | acquire k arc =>
    rw [view_single] at hi
    rcases hi.acquire he with ⟨rfl, hi'⟩ | ⟨rfl, hi'⟩
    · exact ⟨_, Or.inl ⟨rfl, rfl⟩, by rwa [view_pair]⟩
    · exact ⟨_, Or.inr ⟨rfl, rfl⟩, by rwa [view_single]⟩
  | deref k arc => exact ⟨_, rfl, hi.deref he⟩
  | dropLease k arc =>
    rw [view_single] at hi
    exact ⟨_, rfl, by rw [view_single]; exact hi.dropLease he⟩
  | dropArc k arc =>
    rw [view_single] at hi
    exact ⟨0, rfl, by rw [zero_add]; exact hi.dropArc he⟩
  | close k arc =>
    rw [view_single] at hi
    have hi' := hi.close he
    cases r with
    | true => exact ⟨_, Or.inl ⟨rfl, rfl⟩, by rw [view_single]; exact hi'⟩
    | false => exact ⟨_, Or.inr ⟨rfl, rfl⟩, by rw [view_single]; exact hi'⟩
  | drain k arc =>
    rw [view_single] at hi
    exact ⟨_, rfl, by rw [view_single]; exact hi.drain he⟩
  | take k arc =>
    rw [view_single] at hi
    exact ⟨_, rfl, by rw [view_pair]; exact hi.take he⟩

end TypedFuse
