import TypedFuse.Core.Soundness

/-!
# Logics about callbacks

A logic about the state of a filesystem does not care about most of what the runtime does: its own
critical sections leave the filesystem's state, the link counts and the identity of the nodes alone
(`Calm`).  If such a logic lets these sections be used freely and every callback can be run without
tokens, then so can every request.
-/

namespace TypedFuse

open Conc NodeTable TypedFuse.Runtime

namespace NodeTable

variable {N : Type}

/-- The link counts stay, and every live slot was there before, as the same node. -/
structure Calm (t t' : NodeTable N) : Prop where
  links : ∀ i, t'.count .links i = t.count .links i
  origin : ∀ i s', t'.slot i = some s' →
    ∃ s, t.slot i = some s ∧ s'.record = s.record ∧ s'.generation = s.generation

lemma Calm.refl (t : NodeTable N) : Calm t t :=
  ⟨fun _ => rfl, fun _ s hs => ⟨s, hs, rfl, rfl⟩⟩

lemma Calm.trans {t t' t'' : NodeTable N} (h : Calm t t') (h' : Calm t' t'') : Calm t t'' := by
  refine ⟨fun i => (h'.links i).trans (h.links i), ?_⟩
  intro i s'' hs''
  obtain ⟨s', hs', hrec', hgen'⟩ := h'.origin i s'' hs''
  obtain ⟨s, hs, hrec, hgen⟩ := h.origin i s' hs'
  exact ⟨s, hs, hrec'.trans hrec, hgen'.trans hgen⟩

lemma Calm.incr {t t' : NodeTable N} {c : Counter} (hc : c ≠ .links) {id : NodeId}
    {r : Option (Slot N)} (h : t.incr c id = some (r, t')) : Calm t t' := by
  refine ⟨fun i => count_incr_ne h hc.symm, ?_⟩
  intro i s' hs'
  rw [slot_incr h] at hs'
  obtain ⟨s, hs, rfl⟩ := Option.map_eq_some_iff.mp hs'
  refine ⟨s, hs, ?_⟩
  split <;> simp

lemma Calm.decr (t : NodeTable N) {c : Counter} (hc : c ≠ .links) (n : ℕ) (id : NodeId) :
    Calm t (t.decr c n id) := by
  refine ⟨fun i => count_decr_ne t n hc.symm, ?_⟩
  intro i s' hs'
  obtain ⟨s, hs, rfl⟩ := slot_of_slot_decr hs'
  refine ⟨s, hs, ?_⟩
  split <;> simp

lemma Calm.maybeDrop (t : NodeTable N) (id : NodeId) : Calm t (t.maybeDrop id) :=
  ⟨fun i => count_maybeDrop t .links id i,
    fun _ s' hs' => ⟨s', slot_of_slot_maybeDrop hs', rfl, rfl⟩⟩

lemma Calm.dropRef (t : NodeTable N) (r : NodeRef N) : Calm t (t.dropRef r) := by
  unfold NodeTable.dropRef
  split
  · split
    · exact Calm.decr t (by decide) 1 r.id
    · exact Calm.maybeDrop t r.id
  · exact Calm.maybeDrop t r.id

lemma Calm.get {t t' : NodeTable N} {id : NodeId} {r : Option (NodeRef N)}
    (h : t.get id = some (r, t')) : Calm t t' := by
  obtain ⟨⟨o, t₁⟩, hinc, heq⟩ := Option.map_eq_some_iff.mp h
  obtain ⟨_, rfl⟩ := Prod.mk.inj heq
  exact Calm.incr (by decide) hinc

lemma Calm.reparent (t : NodeTable N) (id newParent : NodeId) :
    Calm t (t.reparent id newParent) := by
  refine ⟨fun i => count_reparent t .links id newParent i, ?_⟩
  intro i s' hs'
  rw [slot_reparent] at hs'
  obtain ⟨s, hs, rfl⟩ := Option.map_eq_some_iff.mp hs'
  refine ⟨s, hs, ?_⟩
  split <;> exact ⟨rfl, rfl⟩

/-- `Cx::insert` counts the link of the new node. -/
lemma count_links_insert {t t' : NodeTable N} (hwf : t.WF) {payload : N} {parent id : NodeId}
    (h : t.insert payload parent = some (id, t')) (i : NodeId) :
    t'.count .links i = t.count .links i + if i = id then 1 else 0 := by
  obtain ⟨gen, hslot⟩ := slot_insert h
  have hdead := hwf.insert_dead h
  by_cases hi : i = id
  · subst hi
    have hnew := hslot i
    rw [if_pos rfl] at hnew
    rw [count_of_slot hnew, count_of_dead hdead, if_pos rfl]
    rfl
  · have hold := hslot i
    rw [if_neg hi] at hold
    unfold count
    rw [hold, if_neg hi, add_zero]

end NodeTable

/-- The runtime's own sections are calm and leave the state of the filesystem alone. -/
lemma calm_exec {σ : FsSig} {s s' : RtState σ} {n : ℕ} {i : RtInstr σ} {ch : Option σ.Choice}
    {r : i.Resp} (hi : ∀ j, i ≠ .fs j) (he : s.exec n i ch = some (r, s')) :
    Calm s.table s'.table ∧ s'.fs = s.fs := by
  cases i with
  | fs j => exact absurd rfl (hi j)
  | node id | lease id =>
    obtain ⟨⟨o, t'⟩, hget, heq⟩ := Option.map_eq_some_iff.mp he
    obtain ⟨_, rfl⟩ := Prod.mk.inj heq
    exact ⟨Calm.get hget, rfl⟩
  | grant id | retainLookup id =>
    obtain ⟨⟨o, t'⟩, hadd, heq⟩ := Option.map_eq_some_iff.mp he
    obtain ⟨_, rfl⟩ := Prod.mk.inj heq
    obtain ⟨⟨o', t₁⟩, hinc, heq'⟩ := Option.map_eq_some_iff.mp hadd
    obtain ⟨_, rfl⟩ := Prod.mk.inj heq'
    exact ⟨Calm.incr (by decide) hinc, rfl⟩
  | dropNode ref =>
    obtain ⟨_, rfl⟩ := Prod.mk.inj (Option.some.inj he)
    exact ⟨Calm.dropRef _ _, rfl⟩
  | forget ino m =>
    obtain ⟨_, rfl⟩ := Prod.mk.inj (Option.some.inj he)
    exact ⟨Calm.decr _ (by decide) m ino, rfl⟩
  | removeOpen ino =>
    obtain ⟨_, rfl⟩ := Prod.mk.inj (Option.some.inj he)
    exact ⟨Calm.decr _ (by decide) 1 ino, rfl⟩
  | addOpen ino =>
    obtain ⟨⟨b, t'⟩, hadd, heq⟩ := Option.map_eq_some_iff.mp he
    obtain ⟨_, rfl⟩ := Prod.mk.inj heq
    obtain ⟨⟨o', t₁⟩, hinc, heq'⟩ := Option.map_eq_some_iff.mp hadd
    obtain ⟨_, rfl⟩ := Prod.mk.inj heq'
    exact ⟨Calm.incr (by decide) hinc, rfl⟩
  | denote | plusEntry | leak | parentOf | discard | removeHandle =>
    obtain ⟨_, rfl⟩ := Prod.mk.inj (Option.some.inj he)
    exact ⟨Calm.refl _, rfl⟩
  | addHandle | findHandle | acquire | deref | dropLease | dropArc | close | drain | take =>
    obtain ⟨_, _, heq⟩ := Option.map_eq_some_iff.mp he
    obtain ⟨_, rfl⟩ := Prod.mk.inj heq
    exact ⟨Calm.refl _, rfl⟩

/-- Callbacks do not touch handle records. -/
lemma handles_execFs {σ : FsSig} {s s' : RtState σ} {n : ℕ} {i : FsInstr σ}
    {ch : Option σ.Choice} {r : i.Resp} (he : s.execFs n i ch = some (r, s')) :
    s'.handles = s.handles ∧ s'.hist.handleLeases = s.hist.handleLeases := by
  cases i with
  | get | insert | addLink =>
    obtain ⟨_, _, heq⟩ := Option.map_eq_some_iff.mp he
    obtain ⟨_, rfl⟩ := Prod.mk.inj heq
    exact ⟨rfl, rfl⟩
  | contains | reparent | removeLink =>
    obtain ⟨_, rfl⟩ := Prod.mk.inj (Option.some.inj he)
    exact ⟨rfl, rfl⟩
  | dropRef ref =>
    change (if ref.key ∈ s.hist.fsRefs then some ((), _) else none) = some (r, s') at he
    split at he
    · obtain ⟨_, rfl⟩ := Prod.mk.inj (Option.some.inj he)
      exact ⟨rfl, rfl⟩
    · cases he
  | own i =>
    cases ch with
    | none => cases he
    | some ch =>
      obtain ⟨_, _, heq⟩ := Option.map_eq_some_iff.mp he
      obtain ⟨_, rfl⟩ := Prod.mk.inj heq
      exact ⟨rfl, rfl⟩

/-- The same numbers are registered for the same records, the same records exist, and no record
has a new payload. -/
structure Handles.SameTable {P : HandleKind → Type} (hs hs' : Handles P) : Prop where
  table : hs'.table = hs.table
  nextFh : hs'.nextFh = hs.nextFh
  records : ∀ k a, ((hs'.cells k).lookup a).isSome = ((hs.cells k).lookup a).isSome
  payloads : ∀ k a h, hs'.deref k a = some h → hs.deref k a = some h

namespace Handles.SameTable

variable {P : HandleKind → Type} {hs hs' : Handles P} {k : HandleKind} {a : ℕ}

lemma refl (hs : Handles P) : SameTable hs hs :=
  ⟨rfl, rfl, fun _ _ => rfl, fun _ _ _ h => h⟩

/-- Changing a record that exists, without a new payload. -/
lemma setCell {cell cell' : HandleCell (P k)} (h : (hs.cells k).lookup a = some cell)
    (hp : ∀ x, cell'.payload = some x → cell.payload = some x) :
    SameTable hs (hs.setCell k a cell') := by
  have hcells : ∀ k' a', (k', a') ≠ (k, a) →
      ((hs.setCell k a cell').cells k').lookup a' = (hs.cells k').lookup a' :=
    fun k' a' hne => hs.lookup_setCell_ne cell' hne
  refine ⟨rfl, rfl, ?_, ?_⟩
  · intro k' a'
    by_cases heq : (k', a') = (k, a)
    · obtain ⟨rfl, rfl⟩ := Prod.mk.inj heq
      rw [hs.lookup_setCell, h]
      rfl
    · rw [hcells k' a' heq]
  · intro k' a' x hx
    unfold Handles.deref at hx ⊢
    by_cases heq : (k', a') = (k, a)
    · obtain ⟨rfl, rfl⟩ := Prod.mk.inj heq
      rw [hs.lookup_setCell] at hx
      rw [h]
      exact hp x hx
    · rwa [hcells k' a' heq] at hx

end Handles.SameTable

/-- Only registering and removing a handle change which handles there are. -/
lemma sameTable_exec {fs : NodeFs} {s s' : RtState fs.toFsSig} {n : ℕ} {i : RtInstr fs.toFsSig}
    {ch : Option fs.Choice} {r : i.Resp}
    (hadd : ∀ k node payload, i ≠ .addHandle k node payload)
    (hremove : ∀ k ino fh, i ≠ .removeHandle k ino fh)
    (he : (service fs).exec n i ch s = some (r, s')) :
    Handles.SameTable s.handles s'.handles := by
  cases i with
  | addHandle k node payload => exact absurd rfl (hadd k node payload)
  | removeHandle k ino fh => exact absurd rfl (hremove k ino fh)
  | fs i =>
    rw [(handles_execFs he).1]
    exact .refl _
  | node | lease | addOpen | deref | grant | retainLookup =>
    obtain ⟨_, _, heq⟩ := Option.map_eq_some_iff.mp he
    obtain ⟨_, rfl⟩ := Prod.mk.inj heq
    exact .refl _
  | dropNode | denote | plusEntry | forget | leak | removeOpen | parentOf | discard =>
    obtain ⟨_, rfl⟩ := Prod.mk.inj (Option.some.inj he)
    exact .refl _
  | findHandle k fh =>
    obtain ⟨⟨o, hs'⟩, hfind, heq⟩ := Option.map_eq_some_iff.mp he
    obtain ⟨_, rfl⟩ := Prod.mk.inj heq
    unfold Handles.find at hfind
    split at hfind
    · obtain ⟨_, rfl⟩ := Prod.mk.inj (Option.some.inj hfind)
      exact .refl _
    · split at hfind
      · next cell hcell =>
        obtain ⟨_, rfl⟩ := Prod.mk.inj (Option.some.inj hfind)
        exact .setCell hcell fun _ h => h
      · cases hfind
  | acquire k arc =>
    obtain ⟨⟨granted, hs'⟩, hacq, heq⟩ := Option.map_eq_some_iff.mp he
    obtain ⟨_, rfl⟩ := Prod.mk.inj heq
    unfold Handles.acquire at hacq
    split at hacq
    · cases hacq
    · next cell hcell =>
      split at hacq
      · obtain ⟨_, rfl⟩ := Prod.mk.inj (Option.some.inj hacq)
        exact .refl _
      · split at hacq
        · obtain ⟨_, rfl⟩ := Prod.mk.inj (Option.some.inj hacq)
          exact .setCell hcell fun _ h => h
        · cases hacq
  | dropLease k arc =>
    obtain ⟨hs', hd, heq⟩ := Option.map_eq_some_iff.mp he
    obtain ⟨_, rfl⟩ := Prod.mk.inj heq
    obtain ⟨cell, hcell, rfl⟩ := Option.map_eq_some_iff.mp hd
    exact .setCell hcell fun _ h => h
  | dropArc k arc =>
    obtain ⟨hs', hd, heq⟩ := Option.map_eq_some_iff.mp he
    obtain ⟨_, rfl⟩ := Prod.mk.inj heq
    obtain ⟨cell, hcell, rfl⟩ := Option.map_eq_some_iff.mp hd
    refine .setCell hcell ?_
    intro x hx
    split at hx
    · cases hx
    · exact hx
  | close k arc =>
    obtain ⟨⟨b, hs'⟩, hc, heq⟩ := Option.map_eq_some_iff.mp he
    obtain ⟨_, rfl⟩ := Prod.mk.inj heq
    obtain ⟨cell, hcell, heq'⟩ := Option.map_eq_some_iff.mp hc
    split at heq'
    · obtain ⟨_, rfl⟩ := Prod.mk.inj heq'
      exact .setCell hcell fun _ h => h
    · obtain ⟨_, rfl⟩ := Prod.mk.inj heq'
      exact .setCell hcell fun _ h => h
  | drain k arc =>
    obtain ⟨hs', hd, heq⟩ := Option.map_eq_some_iff.mp he
    obtain ⟨_, rfl⟩ := Prod.mk.inj heq
    unfold Handles.drain at hd
    split at hd
    · next cell hcell =>
      split at hd
      · obtain rfl := Option.some.inj hd
        exact .setCell hcell fun _ h => h
      · cases hd
    · cases hd
  | take k arc =>
    obtain ⟨⟨payload, hs'⟩, ht, heq⟩ := Option.map_eq_some_iff.mp he
    obtain ⟨_, rfl⟩ := Prod.mk.inj heq
    unfold Handles.take at ht
    split at ht
    · next cell hcell =>
      split at ht
      · obtain ⟨_, rfl⟩ := Prod.mk.inj (Option.some.inj ht)
        exact .setCell hcell fun _ h => nomatch h
      · cases ht
    · cases ht

/-! ## Properties of requests -/

section Closed

variable {fs : NodeFs} {K : {α : Type} → RtProg fs.toFsSig α → Prop} {α β : Type}

/-- A property of programs that sequences keep, and that the runtime's own sections have. -/
structure Framed (fs : NodeFs) (K : {α : Type} → RtProg fs.toFsSig α → Prop) : Prop where
  ret : ∀ {α : Type} (a : α), K (.ret a : RtProg fs.toFsSig α)
  bind : ∀ {α β : Type} {p : RtProg fs.toFsSig α} {f : α → RtProg fs.toFsSig β}, K p →
    (∀ a, K (f a)) → K (p >>= f)
  sect : ∀ {i : RtInstr fs.toFsSig}, (∀ j, i ≠ .fs j) → K (Runtime.sect i)

/-- Such a property that the callbacks have which are neither about names nor about what a node
holds. -/
structure Mild (fs : NodeFs) (K : {α : Type} → RtProg fs.toFsSig α → Prop) : Prop
    extends Framed fs @K where
  populate : K (call fs.populate)
  getattr : ∀ node h caller, K (call (fs.getattr node h caller))
  nodeOp : ∀ op node caller, K (call (fs.nodeOp op node caller))
  fsyncdir : ∀ node h datasync caller, K (call (fs.fsyncdir node h datasync caller))
  statfs : ∀ caller, K (call (fs.statfs caller))
  openNode : ∀ k node flags caller, K (call (fs.openNode k node flags caller))
  release : ∀ k node h caller, K (call (fs.release k node h caller))

/-- Such a property that the callbacks have which neither make nor remove nor look up names. -/
structure Steady (fs : NodeFs) (K : {α : Type} → RtProg fs.toFsSig α → Prop) : Prop
    extends Mild fs @K where
  setattr : ∀ node h set caller, K (call (fs.setattr node h set caller))
  fileOp : ∀ op node h caller, K (call (fs.fileOp op node h caller))

/-- Such a property that the other callbacks have as well. -/
structure Closed (fs : NodeFs) (K : {α : Type} → RtProg fs.toFsSig α → Prop) : Prop
    extends Steady fs @K where
  lookup : ∀ parent name caller, K (call (fs.lookup parent name caller))
  makeOp : ∀ op caller, K (call (fs.makeOp op caller))
  treeOp : ∀ op caller, K (call (fs.treeOp op caller))
  create : ∀ parent name mode umask flags caller,
    K (call (fs.create parent name mode umask flags caller))

lemma Framed.withNode (hK : Framed fs @K) {ino : ℕ}
    {body : NodeRef fs.Node → RtProg fs.toFsSig (Fallible α)} (hbody : ∀ ref, K (body ref)) :
    K (withNode ino body) := by
  refine hK.bind (hK.sect (by simp)) ?_
  intro r
  cases r with
  | none => exact hK.ret _
  | some ref =>
    refine hK.bind (hbody ref) fun a => hK.bind (hK.sect (by simp)) fun _ => hK.ret a

lemma Framed.withHandle (hK : Framed fs @K) {k : HandleKind} {ino fh : ℕ}
    {body : fs.Payload k → RtProg fs.toFsSig (Fallible α)}
    (hbody : ∀ payload, K (body payload)) : K (withHandle k ino fh body) := by
  have hfail : ∀ record : HandleArc, K
      (do Runtime.sect (.dropArc k record); return (fail .EBADF : Fallible α)) :=
    fun record => hK.bind (hK.sect (by simp)) fun _ => hK.ret _
  refine hK.bind (hK.sect (by simp)) ?_
  intro r
  cases r with
  | none => exact hK.ret _
  | some record =>
    dsimp only
    split
    · refine hK.bind (hK.sect (by simp)) ?_
      intro granted
      cases granted with
      | false => exact hfail record
      | true =>
        refine hK.bind (hK.sect (by simp)) fun _ => hK.bind (hK.sect (by simp)) ?_
        intro payload
        refine hK.bind (hbody payload) ?_
        intro a
        exact hK.bind (hK.sect (by simp)) fun _ =>
          hK.bind (hK.sect (by simp)) fun _ => hK.ret a
    · exact hfail record

lemma Framed.withOptionalFile (hK : Framed fs @K) {ino : ℕ} {fh : Option ℕ}
    {body : Option (fs.Payload .file) → RtProg fs.toFsSig (Fallible α)}
    (hbody : ∀ payload, K (body payload)) : K (withOptionalFile ino fh body) := by
  cases fh with
  | none => exact hbody none
  | some fh => exact hK.withHandle fun payload => hbody (some payload)

lemma Framed.onOk (hK : Framed fs @K) {outcome : Fallible α}
    {next : α → RtProg fs.toFsSig (Fallible β)} (hok : ∀ a, K (next a)) :
    K (Runtime.onOk outcome next) := by
  cases outcome with
  | error e => exact hK.ret _
  | ok a => exact hok a

lemma Mild.entryFor (hK : Mild fs @K) (id : NodeId) (caller : Caller) :
    K (entryFor fs id caller) := by
  refine hK.bind (hK.sect (by simp)) fun denoted => hK.bind (hK.sect (by simp)) ?_
  intro r
  cases r with
  | none => exact hK.ret _
  | some ref =>
    refine hK.bind (hK.getattr _ none caller) ?_
    intro result
    cases result with
    | error e => exact hK.bind (hK.sect (by simp)) fun _ => hK.ret _
    | ok attr =>
      refine hK.bind (hK.sect (by simp)) ?_
      intro r
      cases r with
      | none => exact hK.bind (hK.sect (by simp)) fun _ => hK.ret _
      | some generation => exact hK.bind (hK.sect (by simp)) fun _ => hK.ret _

lemma Framed.forgetAll (hK : Framed fs @K) (ids : List NodeId) :
    K (forgetAll ids : RtProg fs.toFsSig Unit) := by
  induction ids with
  | nil => exact hK.ret ()
  | cons id ids ih => exact hK.bind (hK.sect (by simp)) fun _ => ih

lemma Mild.openNode' (hK : Mild fs @K) (k : HandleKind) (ino : ℕ) (flags : ℤ)
    (caller : Caller) : K (Runtime.openNode fs k ino flags caller) := by
  refine hK.withNode fun ref => hK.bind (hK.openNode k _ flags caller) fun result => hK.onOk ?_
  intro opened
  refine hK.bind (hK.sect (by simp)) ?_
  intro live
  cases live with
  | true => exact hK.bind (hK.sect (by simp)) fun _ => hK.ret _
  | false => exact hK.bind (hK.sect (by simp)) fun _ => hK.ret _

lemma Mild.release' (hK : Mild fs @K) (k : HandleKind) (ino fh : ℕ) (caller : Caller) :
    K (Runtime.release fs k ino fh caller) := by
  refine hK.bind (hK.sect (by simp)) ?_
  intro r
  cases r with
  | none => exact hK.ret _
  | some record =>
    refine hK.bind (hK.withNode ?_) fun a => hK.bind (hK.sect (by simp)) fun _ => hK.ret a
    intro ref
    refine hK.bind (hK.sect (by simp)) fun _ => hK.bind ?_ fun handle => hK.release k _ _ caller
    refine hK.bind (hK.sect (by simp)) ?_
    intro drained
    cases drained with
    | true => exact hK.sect (by simp)
    | false => exact hK.bind (hK.sect (by simp)) fun _ => hK.sect (by simp)

lemma Framed.accounting (hK : Framed fs @K) (sink : Sink PlusEntry) (acc : Accounting) (name : Name)
    (id : NodeId) (attr : NodeAttr) (nextOffset : ℕ) :
    K (Accounting.add sink acc name id attr nextOffset : RtProg fs.toFsSig _) := by
  refine hK.bind (hK.sect (by simp)) ?_
  intro r
  cases r with
  | none => exact hK.ret _
  | some generation =>
    dsimp only
    split
    · split
      · refine hK.bind (hK.sect (by simp)) ?_
        intro r
        cases r with
        | none => exact hK.ret _
        | some _ => exact hK.ret _
      · exact hK.ret _
    · exact hK.ret _

lemma Mild.create' (hK : Mild fs @K) {parent : ℕ} {name : Name} {mode umask : ℕ} {flags : ℤ}
    {caller : Caller} (hcreate : K (call (fs.create parent name mode umask flags caller))) :
    K (Runtime.create fs parent name mode umask flags caller) := by
  refine hK.bind hcreate fun result => hK.onOk ?_
  rintro ⟨id, opened⟩
  refine hK.bind (hK.entryFor id caller) ?_
  intro entry
  cases entry with
  | error e => exact hK.bind (hK.sect (by simp)) fun _ => hK.ret _
  | ok entry =>
    refine hK.bind (hK.sect (by simp)) ?_
    intro live
    cases live with
    | true => exact hK.bind (hK.sect (by simp)) fun _ => hK.ret _
    | false =>
      exact hK.bind (hK.sect (by simp)) fun _ => hK.bind (hK.sect (by simp)) fun _ => hK.ret _

/-- A request has the property, if its listing has it and the callback by which it is about names
or contents. -/
theorem Mild.serve (hK : Mild fs @K) (req : Request)
    (hsetattr : ∀ ino fh change caller, req = .setattr ino fh change caller →
      ∀ node h, K (call (fs.setattr node h change caller)))
    (hfileOp : ∀ op ino fh caller, req = .fileOp op ino fh caller →
      ∀ node h, K (call (fs.fileOp op node h caller)))
    (hreaddir : ∀ ino fh offset sink caller, req = .readdir ino fh offset sink caller →
      K (Runtime.readdir fs ino fh offset sink caller))
    (hreaddirplus : ∀ ino fh offset sink caller, req = .readdirplus ino fh offset sink caller →
      K (Runtime.readdirplus fs ino fh offset sink caller))
    (hlookup : ∀ parent name caller, req = .lookup parent name caller →
      K (call (fs.lookup parent name caller)))
    (hmakeOp : ∀ op caller, req = .makeOp op caller → K (call (fs.makeOp op caller)))
    (htreeOp : ∀ op caller, req = .treeOp op caller → K (call (fs.treeOp op caller)))
    (hcreate : ∀ parent name mode umask flags caller,
      req = .create parent name mode umask flags caller →
        K (call (fs.create parent name mode umask flags caller))) : K (Runtime.serve fs req) := by
  cases req with
  | populate => exact hK.bind hK.populate fun _ => hK.ret _
  | forget ino nlookup => exact hK.bind (hK.sect (by simp)) fun _ => hK.ret _
  | statfs caller => exact hK.bind (hK.statfs caller) fun _ => hK.ret _
  | getattr ino fh caller =>
    exact hK.bind (hK.withNode fun _ => hK.withOptionalFile fun _ => hK.getattr _ _ _)
      fun _ => hK.ret _
  | setattr ino fh change caller =>
    have hset := hsetattr ino fh change caller rfl
    exact hK.bind (hK.withNode fun _ => hK.withOptionalFile fun _ => hset _ _) fun _ => hK.ret _
  | nodeOp op ino caller =>
    exact hK.bind (hK.withNode fun _ => hK.nodeOp _ _ _) fun _ => hK.ret _
  | fileOp op ino fh caller =>
    have hop := hfileOp op ino fh caller rfl
    exact hK.bind (hK.withNode fun _ => hK.withHandle fun _ => hop _ _) fun _ => hK.ret _
  | fsyncdir ino fh datasync caller =>
    exact hK.bind (hK.withNode fun _ => hK.withHandle fun _ => hK.fsyncdir _ _ _ _)
      fun _ => hK.ret _
  | openNode k ino flags caller =>
    exact hK.bind (hK.openNode' k ino flags caller) fun _ => hK.ret _
  | release k ino fh caller =>
    exact hK.bind (hK.release' k ino fh caller) fun _ => hK.ret _
  | readdir ino fh offset sink caller =>
    exact hK.bind (hreaddir ino fh offset sink caller rfl) fun _ => hK.ret _
  | readdirplus ino fh offset sink caller =>
    exact hK.bind (hreaddirplus ino fh offset sink caller rfl) fun _ => hK.ret _
  | lookup parent name caller =>
    refine hK.bind (hK.bind (hlookup parent name caller rfl) fun result => hK.onOk ?_)
      fun _ => hK.ret _
    intro found
    cases found with
    | none => exact hK.ret _
    | some id => exact hK.bind (hK.entryFor id caller) fun _ => hK.ret _
  | makeOp op caller =>
    exact hK.bind
      (hK.bind (hmakeOp op caller rfl) fun _ => hK.onOk fun id => hK.entryFor id caller)
      fun _ => hK.ret _
  | treeOp op caller => exact hK.bind (htreeOp op caller rfl) fun _ => hK.ret _
  | create parent name mode umask flags caller =>
    exact hK.bind (hK.create' (hcreate parent name mode umask flags caller rfl)) fun _ => hK.ret _

/-- A request has the property, if its listing has it and the callback by which it makes, removes or
looks up a name. -/
theorem Steady.serve (hK : Steady fs @K) (req : Request)
    (hreaddir : ∀ ino fh offset sink caller, req = .readdir ino fh offset sink caller →
      K (Runtime.readdir fs ino fh offset sink caller))
    (hreaddirplus : ∀ ino fh offset sink caller, req = .readdirplus ino fh offset sink caller →
      K (Runtime.readdirplus fs ino fh offset sink caller))
    (hlookup : ∀ parent name caller, req = .lookup parent name caller →
      K (call (fs.lookup parent name caller)))
    (hmakeOp : ∀ op caller, req = .makeOp op caller → K (call (fs.makeOp op caller)))
    (htreeOp : ∀ op caller, req = .treeOp op caller → K (call (fs.treeOp op caller)))
    (hcreate : ∀ parent name mode umask flags caller,
      req = .create parent name mode umask flags caller →
        K (call (fs.create parent name mode umask flags caller))) : K (Runtime.serve fs req) := by
  refine hK.toMild.serve req ?_ ?_ hreaddir hreaddirplus hlookup hmakeOp htreeOp hcreate
  · exact fun ino fh change caller _ node h => hK.setattr node h change caller
  · exact fun op ino fh caller _ node h => hK.fileOp op node h caller

/-- Every request has the property, if listings have it. -/
theorem Closed.serve (hK : Closed fs @K)
    (hreaddir : ∀ ino fh offset sink caller,
      K (Runtime.readdir fs ino fh offset sink caller))
    (hreaddirplus : ∀ ino fh offset sink caller,
      K (Runtime.readdirplus fs ino fh offset sink caller)) (req : Request) :
    K (Runtime.serve fs req) := by
  refine hK.toSteady.serve req ?_ ?_ ?_ ?_ ?_ ?_
  · exact fun ino fh offset sink caller _ => hreaddir ino fh offset sink caller
  · exact fun ino fh offset sink caller _ => hreaddirplus ino fh offset sink caller
  · exact fun parent name caller _ => hK.lookup parent name caller
  · exact fun op caller _ => hK.makeOp op caller
  · exact fun op caller _ => hK.treeOp op caller
  · exact fun parent name mode umask flags caller _ =>
      hK.create parent name mode umask flags caller

end Closed

/-! ## Requests without tokens -/

section Hosted

variable {fs : NodeFs} {T : Type} {L : Logic (service fs) T} {n : ℕ} {α β D τ : Type}

lemma call_bind {σ : FsSig} (p : FsProg σ α) (f : α → FsProg σ β) :
    call (p >>= f) = (call p >>= fun a => call (f a)) :=
  Prog.embed_bind _ _ p f

/-- A callback inside a directory callback is a callback, if the sink passes its instructions on. -/
lemma handle_inDir {σ : FsSig} {h : (i : DirInstr σ D) → τ → RtProg σ (i.Resp × τ)}
    (hfs : ∀ i acc, h (.fs i) acc = sect (.fs i) >>= fun r => .ret (r, acc)) (p : FsProg σ α)
    (f : α → DirProg σ D β) (acc : τ) :
    ((FsProg.inDir p : DirProg σ D α) >>= f).handle h acc =
      (call p >>= fun a => (f a).handle h acc) := by
  induction p with
  | ret a => rfl
  | act i k ih =>
    have heq : ((FsProg.inDir (Prog.act i k) : DirProg σ D α) >>= f).handle h acc =
        (h (.fs i) acc >>= fun rs =>
          ((FsProg.inDir (k rs.1) : DirProg σ D α) >>= f).handle h rs.2) := rfl
    rw [heq, hfs]
    exact congrArg (Prog.act (RtInstr.fs i)) (funext ih)

/-- What the instructions of a directory callback do to tokens: pushing an entry does nothing, and
the sink may take it or not. -/
def dirSpec (L : Logic (service fs) T) (n : ℕ) (i : DirInstr fs.toFsSig D) (g : Multiset T)
    (K : i.Resp → Multiset T → Prop) : Prop :=
  match i, K with
  | .fs i, K => L.spec n (.fs i) g K
  | .add _ _ _ _, K => ∀ taken, K taken g

/-- A callback inside a directory callback does what it does alone. -/
lemma wp_inDir {p : FsProg fs.toFsSig α} {Q : α → Multiset T → Prop} {g : Multiset T} :
    (p.inDir : DirProg fs.toFsSig D α).wp (dirSpec L n) Q g ↔ L.Meets n g (call p) Q := by
  induction p generalizing g with
  | ret a => exact Iff.rfl
  | act i k ih =>
    constructor
    · exact L.mono_spec n (.fs i) g _ _ fun r g' hr => (ih r).mp hr
    · exact L.mono_spec n (.fs i) g _ _ fun r g' hr => (ih r).mpr hr

/-- A program that needs no tokens and leaves none. -/
def Idle (L : Logic (service fs) T) (n : ℕ) (p : RtProg fs.toFsSig α) : Prop :=
  L.Meets n 0 p fun _ g => g = 0

/-- A logic in which the runtime's own sections are free and the callbacks need no tokens. -/
structure Hosted (L : Logic (service fs) T) (n : ℕ) : Prop where
  free : ∀ i : RtInstr fs.toFsSig, (∀ j, i ≠ .fs j) → L.contract n i .free
  populate : Idle L n (call fs.populate)
  getattr : ∀ node h caller, Idle L n (call (fs.getattr node h caller))
  setattr : ∀ node h set caller, Idle L n (call (fs.setattr node h set caller))
  nodeOp : ∀ op node caller, Idle L n (call (fs.nodeOp op node caller))
  fileOp : ∀ op node h caller, Idle L n (call (fs.fileOp op node h caller))
  fsyncdir : ∀ node h datasync caller, Idle L n (call (fs.fsyncdir node h datasync caller))
  statfs : ∀ caller, Idle L n (call (fs.statfs caller))
  openNode : ∀ k node flags caller, Idle L n (call (fs.openNode k node flags caller))
  release : ∀ k node h caller, Idle L n (call (fs.release k node h caller))
  readdir : ∀ node id parent h offset caller,
    (fs.readdir node id parent h offset caller).wp (dirSpec L n) (fun _ g => g = 0) 0
  readdirplus : ∀ node id parent h offset caller,
    (fs.readdirplus node id parent h offset caller).wp (dirSpec L n) (fun _ g => g = 0) 0
  lookup : ∀ parent name caller, Idle L n (call (fs.lookup parent name caller))
  makeOp : ∀ op caller, Idle L n (call (fs.makeOp op caller))
  treeOp : ∀ op caller, Idle L n (call (fs.treeOp op caller))
  create : ∀ parent name mode umask flags caller,
    Idle L n (call (fs.create parent name mode umask flags caller))

lemma Idle.ret (a : α) : Idle L n (Prog.ret a : RtProg fs.toFsSig α) := rfl

lemma Idle.bind {p : RtProg fs.toFsSig α} {f : α → RtProg fs.toFsSig β} (hp : Idle L n p)
    (hf : ∀ a, Idle L n (f a)) : Idle L n (p >>= f) := by
  refine Logic.Meets.bind hp ?_
  rintro a g rfl
  exact hf a

/-- Needing no tokens is a property of requests. -/
lemma Hosted.closed (hL : Hosted L n) : Closed fs fun p => Idle L n p where
  ret := Idle.ret
  bind := Idle.bind
  sect := by
    intro i hi
    refine Logic.meets_perform (hL.free i hi) (add_zero 0).symm ?_
    rintro r g rfl
    exact add_zero 0
  populate := hL.populate
  getattr := hL.getattr
  setattr := hL.setattr
  nodeOp := hL.nodeOp
  fileOp := hL.fileOp
  fsyncdir := hL.fsyncdir
  statfs := hL.statfs
  openNode := hL.openNode
  release := hL.release
  lookup := hL.lookup
  makeOp := hL.makeOp
  treeOp := hL.treeOp
  create := hL.create

/-- A directory callback over a sink that needs no tokens. -/
lemma Idle.handle {p : DirProg fs.toFsSig D α}
    (hp : p.wp (dirSpec L n) (fun _ g => g = 0) 0)
    {h : (i : DirInstr fs.toFsSig D) → τ → RtProg fs.toFsSig (i.Resp × τ)}
    (hfs : ∀ i acc, h (.fs i) acc = Runtime.sect (.fs i) >>= fun r => .ret (r, acc))
    (hadd : ∀ name id data nextOffset acc, Idle L n (h (.add name id data nextOffset) acc))
    (acc : τ) : Idle L n (p.handle h acc) := by
  have hstep : ∀ (i : DirInstr fs.toFsSig D) (acc : τ) (g : Multiset T)
      (K : i.Resp → Multiset T → Prop), True → dirSpec L n i g K →
      (h i acc).wp (L.spec n) (fun rs g' => True ∧ K rs.1 g') g := by
    intro i acc g K _ hK
    cases i with
    | fs i =>
      rw [hfs]
      exact L.mono_spec n (.fs i) g _ _ (fun r g' hr => ⟨trivial, hr⟩) hK
    | add name id data nextOffset =>
      have hframe := Logic.Meets.frame (hadd name id data nextOffset acc) g
      rw [zero_add] at hframe
      refine hframe.mono ?_
      rintro ⟨taken, acc'⟩ g' ⟨g₀, rfl, rfl⟩
      rw [zero_add]
      exact ⟨trivial, hK taken⟩
  exact Logic.Meets.mono
    (Prog.wp_handle_inv (L.mono_spec n) (V := fun _ => True) hstep hp trivial)
    fun rs g' h => h.2

lemma Hosted.readdir' (hL : Hosted L n) (ino fh offset : ℕ) (sink : Sink DirEntry)
    (caller : Caller) : Idle L n (Runtime.readdir fs ino fh offset sink caller) := by
  refine hL.closed.withNode fun ref => Idle.bind (hL.closed.sect (by simp)) ?_
  intro parent
  cases parent with
  | none => exact Idle.ret _
  | some parent =>
    refine hL.closed.withHandle fun payload =>
      Idle.bind (Idle.handle (hL.readdir _ ino parent payload offset caller) ?_ ?_ []) ?_
    · intro i acc
      rfl
    · intro name id data nextOffset acc
      exact Idle.ret _
    · rintro ⟨result, offered⟩
      exact Idle.ret _

lemma Hosted.readdirplus' (hL : Hosted L n) (ino fh offset : ℕ) (sink : Sink PlusEntry)
    (caller : Caller) : Idle L n (Runtime.readdirplus fs ino fh offset sink caller) := by
  refine hL.closed.withNode fun ref => Idle.bind (hL.closed.sect (by simp)) ?_
  intro parent
  cases parent with
  | none => exact Idle.ret _
  | some parent =>
    refine hL.closed.withHandle fun payload =>
      Idle.bind (Idle.handle (hL.readdirplus _ ino parent payload offset caller) ?_ ?_
        ({} : Accounting)) ?_
    · intro i acc
      rfl
    · intro name id attr nextOffset acc
      exact hL.closed.accounting sink acc name id attr nextOffset
    · rintro ⟨result, acc⟩
      cases result with
      | ok _ => exact Idle.ret _
      | error e =>
        cases e with
        | errno e => exact Idle.bind (hL.closed.forgetAll _) fun _ => Idle.ret _
        | panic => exact Idle.bind (hL.closed.sect (by simp)) fun _ => Idle.ret _

/-- Every request can be served without tokens. -/
theorem Hosted.serve (hL : Hosted L n) (req : Request) : Idle L n (Runtime.serve fs req) :=
  hL.closed.serve hL.readdir' hL.readdirplus' req

end Hosted

end TypedFuse
