import TypedFuse.Path.Rename

/-!
# The names and the inode table between requests

Between requests nothing is owed or lent between the names and the links, and every key leads to
its node (`Backed`).  The steps by which requests change the names keep this: making a node,
removing a name with its link, giving a node a name and a link, and moving a name.
-/

namespace TypedFuse

open Conc NodeTable TypedFuse.Runtime

variable {P : PathFilesystem} {exact : Prop}

namespace Namespace

variable {ns : Namespace} {d : Dentry} {id i : NodeId}

/-- Taking a key changes nothing but the next key. -/
lemma takeKey_eq {ns' : Namespace} {key : ℕ} (h : ns.takeKey = some (key, ns')) :
    ns' = { ns with nextKey := ns.nextKey + 1 } := by
  unfold takeKey at h
  split at h
  · exact (Prod.mk.inj (Option.some.inj h)).2.symm
  · cases h

/-- The bindings after a new node was recorded. -/
lemma find_recorded {ns₁ : Namespace} {key : ℕ} (h : ns.takeKey = some (key, ns₁))
    (d' : Dentry) :
    (ns₁.record key id d).find d' = if d' = d then some id else ns.find d' := by
  rw [takeKey_eq h]
  exact BTreeMap.lookup_insert_ite ns.byName d d' id

/-- The names after a new node was recorded. -/
lemma names_recorded {ns₁ : Namespace} {key : ℕ} (h : ns.takeKey = some (key, ns₁))
    (i : NodeId) :
    (ns₁.record key id d).names i = if i = id then insert d (ns.names id) else ns.names i := by
  rw [takeKey_eq h]
  change (ns.addAlias id d).names i = _
  exact names_addAlias

lemma keys_remove : (ns.remove d).2.keys = ns.keys := by
  unfold remove
  split <;> rfl

lemma nextKey_remove : (ns.remove d).2.nextKey = ns.nextKey := by
  unfold remove
  split <;> rfl

end Namespace

/-- Without phases about keys, one list of phases is as good as another. -/
lemma Keyed.rephase {t : PathTable P} {ns : Namespace}
    {phases phases' : Multiset (Namespace × NsPhase)} (h : Keyed t ns phases)
    (hphases : ∀ x ∈ phases, x.2.key = none) (hphases' : ∀ x ∈ phases', x.2.key = none) :
    Keyed t ns phases' := by
  refine h.congr (Keyed.slot_same t) rfl rfl ?_
  intro ph hph
  constructor
  · rintro ⟨x, hx, rfl⟩
    exact absurd (hphases' x hx) hph
  · rintro ⟨x, hx, rfl⟩
    exact absurd (hphases x hx) hph

/-- Changes of the inode table under which every live node was there before. -/
lemma Keyed.origin {t t' : PathTable P} {ns ns' : Namespace} (h : Keyed t ns 0)
    (hslot : ∀ i sl', t'.slot i = some sl' →
      ∃ sl, t.slot i = some sl ∧ sl'.record = sl.record)
    (hkeys : ns'.keys = ns.keys) (hnext : ns'.nextKey = ns.nextKey) : Keyed t' ns' 0 :=
  h.congr hslot hkeys hnext fun _ _ => Iff.rfl

/-! ## Nodes that were there before -/

lemma slot_removed {t : PathTable P} {id i : NodeId} {sl' : Slot PathNode}
    (h : (t.removeLink id).slot i = some sl') :
    ∃ sl, t.slot i = some sl ∧ sl'.record = sl.record := by
  obtain ⟨sl, hsl, rfl⟩ := slot_of_slot_decr h
  refine ⟨sl, hsl, ?_⟩
  split <;> rfl

lemma slot_linked {t t' : PathTable P} {id i : NodeId} {sl' : Slot PathNode}
    (hadd : t.addLink id = some t') (h : t'.slot i = some sl') :
    ∃ sl, t.slot i = some sl ∧ sl'.record = sl.record := by
  obtain ⟨⟨o, t₁⟩, hinc, rfl⟩ := Option.map_eq_some_iff.mp hadd
  change t₁.slot i = some sl' at h
  rw [slot_incr hinc] at h
  obtain ⟨sl, hsl, rfl⟩ := Option.map_eq_some_iff.mp h
  refine ⟨sl, hsl, ?_⟩
  split <;> rfl

lemma slot_moved {t : PathTable P} {replaced : Option NodeId} {source parent i : NodeId}
    {sl' : Slot PathNode}
    (h : ((replaced.elim t t.removeLink).reparent source parent).slot i = some sl') :
    ∃ sl, t.slot i = some sl ∧ sl'.record = sl.record := by
  obtain ⟨sl₁, hsl₁, hrec, _⟩ := (Calm.reparent _ source parent).origin i sl' h
  cases replaced with
  | none => exact ⟨sl₁, hsl₁, hrec⟩
  | some target =>
    obtain ⟨sl, hsl, heq⟩ := slot_removed hsl₁
    exact ⟨sl, hsl, hrec.trans heq⟩

/-! ## Changes of the names -/

/-- The names and the inode table agree: every name has its link and every key leads to its
node. -/
structure Backed (exact : Prop) (ns : Namespace) (t : PathTable P) : Prop where
  wf : t.WF
  linked : Linked exact (t.count .links) ns (fun _ => 0) fun _ => 0
  keyed : Keyed t ns 0

namespace Backed

variable {ns ns' : Namespace} {t t' : PathTable P} {d old new : Dentry} {id source i : NodeId}

/-- Names that may have been overwritten. -/
lemma weaken (h : Backed exact ns t) : Backed False ns t :=
  ⟨h.wf, ⟨h.linked.bound, h.linked.enough, h.linked.lentNamed, h.linked.noEmpty,
    fun hex => hex.elim, fun hex => hex.elim⟩, h.keyed⟩

/-- The root and every node with a name are live. -/
lemma live (h : Backed exact ns t) (hi : i = NodeId.ROOT ∨ (ns.names i).Nonempty) :
    ∃ sl, t.slot i = some sl := by
  have henough := h.linked.enough i
  refine slot_of_count_pos (c := .links) ?_
  rcases hi with rfl | hne
  · have hroot : rootLink NodeId.ROOT = 1 := rfl
    omega
  · have hpos := Finset.card_pos.mpr hne
    omega

/-- A dead node has no names and is not the root. -/
lemma dead (h : Backed exact ns t) (hi : t.slot i = none) :
    ns.names i = ∅ ∧ i ≠ NodeId.ROOT := by
  have hnot : ¬ (i = NodeId.ROOT ∨ (ns.names i).Nonempty) := by
    intro hlive
    obtain ⟨sl, hsl⟩ := h.live hlive
    rw [hi] at hsl
    cases hsl
  rw [not_or, Finset.not_nonempty_iff_eq_empty] at hnot
  exact hnot.symm

/-- A bound node is live. -/
lemma live_of_find (h : Backed exact ns t) (hd : ns.find d = some i) : ∃ sl, t.slot i = some sl :=
  h.live (Or.inr ⟨d, h.linked.bound d i hd⟩)

/-- Sections that change only references which the names do not stand for. -/
lemma calm (h : Backed exact ns t) (hwf : t'.WF) (hcalm : Calm t t') : Backed exact ns t' := by
  refine ⟨hwf, ?_, ?_⟩
  · exact h.linked.congr (fun _ => rfl) rfl hcalm.links (fun _ => rfl) fun _ => rfl
  · refine h.keyed.origin ?_ rfl rfl
    intro i sl' hsl'
    obtain ⟨sl, hsl, hrec, _⟩ := hcalm.origin i sl' hsl'
    exact ⟨sl, hsl, hrec⟩

/-- Making a node for a free name. -/
lemma made (h : Backed exact ns t) (hd : ns.find d = none) {key : ℕ} {ns₁ : Namespace}
    (hkey : ns.takeKey = some (key, ns₁))
    (hins : t.insert (⟨key⟩ : PathNode) d.parent = some (id, t')) :
    Backed exact (ns₁.record key id d) t' := by
  have hns₁ : ns₁ = { ns with nextKey := ns.nextKey + 1 } := Namespace.takeKey_eq hkey
  refine ⟨h.wf.insert hins, ?_, ?_⟩
  · have hlinked : Linked exact (t'.count .links) ns (fun i => if i = id then 1 else 0)
        fun _ => 0 := by
      refine h.linked.shift ?_
      intro i
      rw [count_links_insert h.wf hins]
      omega
    have hnamed : Linked exact (t'.count .links) (ns.addAlias id d) (fun _ => 0) fun _ => 0 :=
      hlinked.addAlias hd (fun _ => rfl) fun i => (Nat.zero_add _).symm
    refine hnamed.congr ?_ ?_ (fun _ => rfl) (fun _ => rfl) fun _ => rfl
    · intro d'
      rw [hns₁]
      rfl
    · rw [hns₁]
      rfl
  · have hlevel : Keyed t ns {(ns, .level)} := h.keyed.rephase (by simp) (by simp [NsPhase.key])
    have hrecorded := ((hlevel.takeKey hkey).insert hins).record d
    exact hrecorded.rephase (by simp [NsPhase.key]) (by simp)

/-- The link of a removed name is taken. -/
lemma linked_removed (h : Backed exact ns t) (hd : ns.find d = some id) :
    Linked exact ((t.removeLink id).count .links) (ns.remove d).2 (fun _ => 0) fun _ => 0 := by
  have hpos := h.linked.links_pos hd
  have hremoved : Linked exact (t.count .links) (ns.remove d).2
      (fun i => if i = id then 1 else 0) fun _ => 0 :=
    h.linked.remove hd (fun _ => rfl) fun i => (Nat.zero_add _).symm
  refine hremoved.shift ?_
  intro i
  have hcount := count_decr t .links .links 1 id i
  by_cases hi : i = id
  · subst hi
    simp only [NodeTable.removeLink, hcount, if_true, and_self]
    omega
  · simp only [NodeTable.removeLink, hcount, hi, and_false, if_false]
    omega

/-- Removing a name and its link. -/
lemma removed (h : Backed exact ns t) (hd : ns.find d = some id) :
    Backed exact (ns.remove d).2 (t.removeLink id) := by
  refine ⟨h.wf.decr _ _ _, h.linked_removed hd, ?_⟩
  exact h.keyed.origin (fun _ _ hsl' => slot_removed hsl') Namespace.keys_remove
    Namespace.nextKey_remove

/-- Giving a name and a link to a node that is the root or has a name. -/
lemma bound (h : Backed exact ns t) (hid : id = NodeId.ROOT ∨ (ns.names id).Nonempty)
    (hfree : exact → ns.find d = none) (hadd : t.addLink id = some t') :
    Backed exact (ns.addAlias id d) t' := by
  obtain ⟨⟨o, t₁⟩, hinc, rfl⟩ := Option.map_eq_some_iff.mp hadd
  have hcount : ∀ i, t₁.count .links i = t.count .links i + if i = id then 1 else 0 := by
    intro i
    obtain ⟨sl, hsl⟩ := h.live hid
    have hsome : o.isSome = true := by
      rcases incr_cases hinc with ⟨_, hdead, _⟩ | ⟨sl', rfl, _, _⟩
      · rw [hsl] at hdead
        cases hdead
      · rfl
    have hcount := count_incr hinc .links i
    simpa [hsome] using hcount
  refine ⟨h.wf.incr hinc, ?_, ?_⟩
  · have hlent : Linked exact (t.count .links) (ns.addAlias id d) (fun _ => 0)
        fun i => if i = id ∧ d ∉ ns.names id then 1 else 0 :=
      h.linked.borrow hid hfree (fun _ => rfl) fun _ => rfl
    by_cases hmem : d ∈ ns.names id
    · -- a name that is there twice has a link to spare
      have hinexact : ¬exact := by
        intro hex
        have hfind := h.linked.named hex d id hmem
        rw [hfree hex] at hfind
        cases hfind
      have hnone : Linked exact (t.count .links) (ns.addAlias id d) (fun _ => 0) fun _ => 0 :=
        hlent.congr (fun _ => rfl) rfl (fun _ => rfl) (fun _ => rfl) fun i => by simp [hmem]
      refine hnone.spare hinexact ?_
      intro i
      rw [hcount]
      exact Nat.le_add_right _ _
    · refine hlent.repay (if_pos ⟨rfl, hmem⟩) hcount ?_
      intro i
      simp [hmem]
  · exact h.keyed.origin (fun _ _ hsl' => slot_linked hadd hsl') rfl rfl

/-- The links after a name was moved: the replaced node has lost one. -/
lemma linked_moved (h : Backed exact ns t) (hne : old ≠ new) (hold : ns.find old = some source) :
    Linked exact ((((ns.find new).elim t t.removeLink).reparent source new.parent).count .links)
      (ns.move old new source) (fun _ => 0) fun _ => 0 := by
  have hreplaced : Linked exact (((ns.find new).elim t t.removeLink).count .links)
      (ns.remove new).2 (fun _ => 0) fun _ => 0 := by
    cases hfind : ns.find new with
    | none =>
      rw [Namespace.remove_of_unbound hfind]
      exact h.linked
    | some target => exact h.linked_removed hfind
  have hunbound : Linked exact (((ns.find new).elim t t.removeLink).count .links)
      ((ns.remove new).2.remove old).2 (fun i => if i = source then 1 else 0) fun _ => 0 :=
    hreplaced.remove ((Namespace.find_remove_ne hne).trans hold) (fun _ => rfl)
      fun i => (Nat.zero_add _).symm
  have hfree : ((ns.remove new).2.remove old).2.find new = none := by
    rw [Namespace.find_remove, if_neg (Ne.symm hne), Namespace.find_remove, if_pos rfl]
  have hmoved : Linked exact (((ns.find new).elim t t.removeLink).count .links)
      (ns.move old new source) (fun _ => 0) fun _ => 0 :=
    hunbound.addAlias hfree (fun _ => rfl) fun i => (Nat.zero_add _).symm
  exact hmoved.congr (fun _ => rfl) rfl (fun i => count_reparent _ _ _ _ i) (fun _ => rfl)
    fun _ => rfl

/-- Moving a name. -/
lemma moved (h : Backed exact ns t) (hne : old ≠ new) (hold : ns.find old = some source) :
    Backed exact (ns.move old new source)
      (((ns.find new).elim t t.removeLink).reparent source new.parent) := by
  refine ⟨?_, h.linked_moved hne hold, ?_⟩
  · cases ns.find new with
    | none => exact h.wf.reparent _ _
    | some target => exact (h.wf.decr _ _ _).reparent _ _
  · refine h.keyed.origin (fun _ _ hsl' => slot_moved hsl') ?_ ?_
    · change ((ns.remove new).2.remove old).2.keys = ns.keys
      rw [Namespace.keys_remove, Namespace.keys_remove]
    · change ((ns.remove new).2.remove old).2.nextKey = ns.nextKey
      rw [Namespace.nextKey_remove, Namespace.nextKey_remove]

end Backed

end TypedFuse
