import TypedFuse.Path.Backed

/-!
# Bindings that lead back to the root

A name is of use only if its directory can be reached.  `Rooted` says that every name is bound in
the root or in a bound node and that no node is bound at or below itself, so that `path_for` finds
a path for every bound node.

Making a node, and with it everything that only adds a name to a new node, keeps this.  Taking the
last name of a node keeps it if nothing is bound in the node (`CanUnbind`), and giving a name to a
known node keeps it if the name is free and the node is not above it (`CanBind`).
-/

namespace TypedFuse

open Conc NodeTable Relation TypedFuse.Runtime

namespace Namespace

variable {ns : Namespace} {d : Dentry} {id i : NodeId}

/-- The node can have names bound in it: it is the root or is bound itself. -/
def Placed (ns : Namespace) (i : NodeId) : Prop :=
  i = NodeId.ROOT ∨ ∃ d, ns.find d = some i

/-- A node that was just unbound may lose its link: it is still bound, or nothing is bound in it
but a name that is about to be moved away. -/
def CanUnbind (ns : Namespace) (moved : Option Dentry) (id : NodeId) : Prop :=
  ns.Placed id ∨ ∀ d i, ns.find d = some i → d.parent = id → moved = some d

/-- A known node may get the name: the name is free, and the node is not above it. -/
def CanBind (ns : Namespace) (id : NodeId) (d : Dentry) : Prop :=
  ns.find d = none ∧ (id = NodeId.ROOT ∨ ¬ ReflTransGen ns.Below id d.parent)

lemma CanUnbind.mono {moved : Option Dentry} {old : Dentry} (h : ns.CanUnbind moved id)
    (hmoved : ∀ d, moved = some d → d = old) : ns.CanUnbind (some old) id := by
  rcases h with h | h
  · exact Or.inl h
  · refine Or.inr ?_
    intro d i hd hp
    rw [hmoved d (h d i hd hp)]

/-- More bindings place more nodes. -/
lemma Placed.mono {ns' : Namespace} (h : ns.Placed i)
    (hfind : ∀ d j, ns.find d = some j → ns'.find d = some j) : ns'.Placed i := by
  rcases h with h | ⟨d, hd⟩
  · exact Or.inl h
  · exact Or.inr ⟨d, hfind d i hd⟩

/-- A node with a path is placed. -/
lemma Placed.of_pathFor (hnamed : ∀ d i, d ∈ ns.names i → ns.find d = some i) {p : Path}
    (h : ns.pathFor i = some (some p)) : ns.Placed i := by
  by_cases hi : i = NodeId.ROOT
  · exact Or.inl hi
  · obtain ⟨d, hd⟩ := names_nonempty_of_pathFor hi h
    exact Or.inr ⟨d, hnamed d i hd⟩

/-- A path is found for every placed node, if names are bound in placed nodes only. -/
lemma some_of_pathWithin (hbound : ∀ d i, ns.find d = some i → d ∈ ns.names i)
    (hnamed : ∀ d i, d ∈ ns.names i → ns.find d = some i)
    (hplaced : ∀ d i, ns.find d = some i → ns.Placed d.parent) {fuel : ℕ} {r : Option Path}
    (hi : ns.Placed i) (h : ns.pathWithin fuel i = some r) : ∃ p, r = some p := by
  have hfirst : ∀ {i}, ns.Placed i → i ≠ NodeId.ROOT →
      ∃ d, ns.firstAlias i = some d ∧ ns.Placed d.parent := by
    intro i hi hroot
    obtain ⟨d, hd⟩ := hi.resolve_left hroot
    cases halias : ns.firstAlias i with
    | none =>
      have hmem := hbound d i hd
      rw [firstAlias_eq_none.mp halias] at hmem
      exact absurd hmem (Finset.notMem_empty d)
    | some d' => exact ⟨d', rfl, hplaced d' i (hnamed d' i (mem_of_firstAlias halias))⟩
  induction fuel generalizing i r with
  | zero =>
    rw [pathWithin] at h
    split at h
    · exact ⟨_, (Option.some.inj h).symm⟩
    · next hroot =>
      obtain ⟨d, hd, _⟩ := hfirst hi hroot
      rw [hd] at h
      cases h
  | succ fuel ih =>
    rw [pathWithin] at h
    split at h
    · exact ⟨_, (Option.some.inj h).symm⟩
    · next hroot =>
      obtain ⟨d, hd, hparent⟩ := hfirst hi hroot
      rw [hd] at h
      dsimp only at h
      split at h
      · cases h
      · next parent hp =>
        obtain ⟨p, rfl⟩ := ih hparent hp
        exact ⟨_, (Option.some.inj h).symm⟩

end Namespace

variable {P : PathFilesystem}

/-- The namespace and the inode table between requests: links are exact, keys lead to their nodes,
names are bound in placed nodes, and no node but the root is below itself. -/
structure Rooted (ns : Namespace) (t : PathTable P) : Prop where
  wf : t.WF
  linked : Linked True (t.count .links) ns (fun _ => 0) fun _ => 0
  keyed : Keyed t ns 0
  placed : ∀ d i, ns.find d = some i → ns.Placed d.parent
  loopless : ∀ i, ¬ TransGen ns.Below i i

namespace Rooted

variable {ns ns' : Namespace} {t t' : PathTable P} {d old new : Dentry} {id source i : NodeId}

lemma backed (h : Rooted ns t) : Backed True ns t :=
  ⟨h.wf, h.linked, h.keyed⟩

lemma of_backed (h : Backed True ns t) (hplaced : ∀ d i, ns.find d = some i →
    ns.Placed d.parent)
    (hloopless : ∀ i, ¬ TransGen ns.Below i i) : Rooted ns t :=
  ⟨h.wf, h.linked, h.keyed, hplaced, hloopless⟩

lemma named (h : Rooted ns t) (d : Dentry) (i : NodeId) (hd : d ∈ ns.names i) :
    ns.find d = some i :=
  h.linked.named trivial d i hd

/-- A placed node is live. -/
lemma live (h : Rooted ns t) (hi : ns.Placed i) : ∃ sl, t.slot i = some sl := by
  rcases hi with rfl | ⟨d, hd⟩
  · exact h.backed.live (Or.inl rfl)
  · exact h.backed.live_of_find hd

/-- Nothing is bound in a node that is not live. -/
lemma parent_ne (h : Rooted ns t) (hi : t.slot i = none) {j : NodeId} (hd : ns.find d = some j) :
    d.parent ≠ i := by
  rintro rfl
  obtain ⟨sl, hsl⟩ := h.live (h.placed d j hd)
  rw [hi] at hsl
  cases hsl

/-- One more binding, in a placed node, of a node that is not above it. -/
lemma bind_loopless (hac : ∀ i, ¬ TransGen ns.Below i i)
    (hfind : ∀ d' i, ns'.find d' = some i → ns.find d' = some i ∨ (d' = d ∧ i = id))
    (hbelow : id = NodeId.ROOT ∨ ¬ ReflTransGen ns.Below id d.parent) (i : NodeId) :
    ¬ TransGen ns'.Below i i := by
  intro hi
  have hedge : ∀ a b, ns'.Below a b → ns.Below a b ∨ (a = d.parent ∧ b = id) := by
    rintro a b ⟨hb, name, hname⟩
    rcases hfind _ _ hname with hold | ⟨hd, rfl⟩
    · exact Or.inl ⟨hb, name, hold⟩
    · exact Or.inr ⟨by rw [← hd], rfl⟩
  rcases hbelow with rfl | hbelow
  · refine hac i (TransGen.mono (fun a b hab => ?_) i i hi)
    rcases hedge a b hab with hold | ⟨_, hb⟩
    · exact hold
    · exact absurd hb hab.1
  · rcases transGen_insert_edge hedge hi with hold | ⟨hu, hv⟩
    · exact hac i hold
    · exact hbelow (hv.trans hu)

/-- Making a node for a free name in a placed node. -/
lemma made (h : Rooted ns t) (hd : ns.find d = none) (hp : ns.Placed d.parent) {key : ℕ}
    {ns₁ : Namespace} (hkey : ns.takeKey = some (key, ns₁))
    (hins : t.insert (⟨key⟩ : PathNode) d.parent = some (id, t')) :
    Rooted (ns₁.record key id d) t' := by
  have hdead := h.wf.insert_dead hins
  have hfind : ∀ d', (ns₁.record key id d).find d' = if d' = d then some id else ns.find d' :=
    Namespace.find_recorded hkey
  have hmono : ∀ d' j, ns.find d' = some j → (ns₁.record key id d).find d' = some j := by
    intro d' j hd'
    rw [hfind, if_neg, hd']
    rintro rfl
    rw [hd] at hd'
    cases hd'
  have hback : ∀ d' j, (ns₁.record key id d).find d' = some j →
      ns.find d' = some j ∨ (d' = d ∧ j = id) := by
    intro d' j hd'
    rw [hfind] at hd'
    split at hd'
    · next heq => exact Or.inr ⟨heq, (Option.some.inj hd').symm⟩
    · exact Or.inl hd'
  refine of_backed (h.backed.made hd hkey hins) ?_ ?_
  · intro d' j hd'
    rcases hback d' j hd' with hold | ⟨rfl, _⟩
    · exact (h.placed d' j hold).mono hmono
    · exact hp.mono hmono
  · refine bind_loopless h.loopless hback (Or.inr ?_)
    -- the new node is not the directory, and nothing is bound in it
    intro hreach
    rcases ReflTransGen.cases_head hreach with heq | ⟨b, ⟨_, name, hname⟩, _⟩
    · obtain ⟨sl, hsl⟩ := h.live hp
      rw [← heq, hdead] at hsl
      cases hsl
    · exact h.parent_ne hdead hname rfl

/-- `Namespace::insert` in a placed node. -/
lemma inserted (h : Rooted ns t) {parent : NodeId} {name : Name} (hp : ns.Placed parent)
    {r : NodeId × Bool} (hi : Effect.Inserted ns t ⟨parent, name⟩ parent r ns' t') :
    Rooted ns' t' := by
  cases hi with
  | found => exact h
  | made hd hkey hins => exact h.made hd hp hkey hins

/-- Removing a name and its link. -/
lemma removed (h : Rooted ns t) (hd : ns.find d = some id)
    (hok : (ns.remove d).2.CanUnbind none id) : Rooted (ns.remove d).2 (t.removeLink id) := by
  have hback : ∀ d' j, (ns.remove d).2.find d' = some j → ns.find d' = some j ∧ d' ≠ d := by
    intro d' j hd'
    rw [Namespace.find_remove] at hd'
    split at hd'
    · cases hd'
    · next hne => exact ⟨hd', hne⟩
  refine of_backed (h.backed.removed hd) ?_ ?_
  · intro d' j hd'
    obtain ⟨hold, hne⟩ := hback d' j hd'
    rcases h.placed d' j hold with hroot | ⟨d₀, hd₀⟩
    · exact Or.inl hroot
    · by_cases heq : d₀ = d
      · subst heq
        obtain rfl : id = d'.parent := Option.some.inj (hd.symm.trans hd₀)
        rcases hok with hplaced | hempty
        · exact hplaced
        · cases hempty d' j hd' rfl
      · exact Or.inr ⟨d₀, by rw [Namespace.find_remove, if_neg heq, hd₀]⟩
  · intro i hi
    refine h.loopless i (TransGen.mono (fun a b hab => ?_) i i hi)
    exact ⟨hab.1, hab.2.imp fun name hname => (hback _ _ hname).1⟩

/-- Giving a name and a link to a node that has a path. -/
lemma bound (h : Rooted ns t) (hid : ns.Placed id) (hp : ns.Placed d.parent)
    (hok : ns.CanBind id d) (hadd : t.addLink id = some t') : Rooted (ns.addAlias id d) t' := by
  obtain ⟨hfree, hbelow⟩ := hok
  have hmono : ∀ d' j, ns.find d' = some j → (ns.addAlias id d).find d' = some j := by
    intro d' j hd'
    rw [Namespace.find_addAlias, if_neg, hd']
    rintro rfl
    rw [hfree] at hd'
    cases hd'
  have hback : ∀ d' j, (ns.addAlias id d).find d' = some j →
      ns.find d' = some j ∨ (d' = d ∧ j = id) := by
    intro d' j hd'
    rw [Namespace.find_addAlias] at hd'
    split at hd'
    · next heq => exact Or.inr ⟨heq, (Option.some.inj hd').symm⟩
    · exact Or.inl hd'
  have hnamed : id = NodeId.ROOT ∨ (ns.names id).Nonempty := by
    rcases hid with hroot | ⟨d₀, hd₀⟩
    · exact Or.inl hroot
    · exact Or.inr ⟨d₀, h.linked.bound d₀ id hd₀⟩
  refine of_backed (h.backed.bound hnamed (fun _ => hfree) hadd) ?_ ?_
  · intro d' j hd'
    rcases hback d' j hd' with hold | ⟨rfl, _⟩
    · exact (h.placed d' j hold).mono hmono
    · exact hp.mono hmono
  · exact bind_loopless h.loopless hback hbelow

/-- Moving a binding. -/
lemma moved (h : Rooted ns t) (hold : ns.find old = some source)
    (hnew : ns.find new ≠ some source) (hp : ns.Placed new.parent)
    (hreplaced : ∀ target, ns.find new = some target →
      (ns.remove new).2.CanUnbind (some old) target)
    (hbind : ((ns.remove new).2.remove old).2.CanBind source new) :
    Rooted (ns.move old new source)
      (((ns.find new).elim t t.removeLink).reparent source new.parent) := by
  have hne : old ≠ new := by
    rintro rfl
    exact hnew hold
  have hback : ∀ d j, (ns.move old new source).find d = some j →
      (ns.find d = some j ∧ d ≠ new ∧ d ≠ old) ∨ (d = new ∧ j = source) := by
    intro d j hd
    rw [Namespace.find_move] at hd
    split at hd
    · next heq => exact Or.inr ⟨heq, (Option.some.inj hd).symm⟩
    · next hn =>
      split at hd
      · cases hd
      · next ho => exact Or.inl ⟨hd, hn, ho⟩
  have hsource : (ns.move old new source).Placed source :=
    Or.inr ⟨new, by rw [Namespace.find_move, if_pos rfl]⟩
  -- a placed node stays placed unless it is the replaced one
  have hstay : ∀ i, ns.Placed i → ns.find new ≠ some i →
      (ns.move old new source).Placed i := by
    rintro i (hroot | ⟨d, hd⟩) hi
    · exact Or.inl hroot
    · by_cases ho : d = old
      · subst ho
        rw [← Option.some.inj (hold.symm.trans hd)]
        exact hsource
      · refine Or.inr ⟨d, ?_⟩
        rw [Namespace.find_move, if_neg, if_neg ho, hd]
        rintro rfl
        exact hi hd
  have htarget : ∀ target, ns.find new = some target → (ns.remove new).2.Placed target →
      (ns.move old new source).Placed target := by
    rintro target ht (hroot | ⟨d, hd⟩)
    · exact Or.inl hroot
    · rw [Namespace.find_remove] at hd
      split at hd
      · cases hd
      · next hn =>
        refine Or.inr ⟨d, ?_⟩
        rw [Namespace.find_move, if_neg hn, if_neg, hd]
        rintro rfl
        rw [hold] at hd
        rw [hd] at hnew
        exact hnew ht
  refine of_backed (h.backed.moved hne hold) ?_ ?_
  · intro d j hd
    rcases hback d j hd with ⟨hfind, hn, ho⟩ | ⟨rfl, _⟩
    · by_cases hreplace : ns.find new = some d.parent
      · rcases hreplaced _ hreplace with hplaced | hempty
        · exact htarget _ hreplace hplaced
        · have hsome := hempty d j (by rw [Namespace.find_remove, if_neg hn, hfind]) rfl
          exact absurd (Option.some.inj hsome).symm ho
      · exact hstay _ (h.placed d j hfind) hreplace
    · by_cases hreplace : ns.find d = some d.parent
      · -- the directory of the new name would be bound in itself
        by_cases hroot : d.parent = NodeId.ROOT
        · exact Or.inl hroot
        · exact absurd (TransGen.single ⟨hroot, d.name, hreplace⟩) (h.loopless d.parent)
      · exact hstay _ hp hreplace
  · have hless : ∀ i, ¬ TransGen ((ns.remove new).2.remove old).2.Below i i := by
      intro i hi
      refine h.loopless i (TransGen.mono (fun a b hab => ?_) i i hi)
      obtain ⟨hb, name, hname⟩ := hab
      rw [Namespace.find_remove] at hname
      split at hname
      · cases hname
      · rw [Namespace.find_remove] at hname
        split at hname
        · cases hname
        · exact ⟨hb, name, hname⟩
    refine bind_loopless hless ?_ hbind.2
    intro d j hd
    rcases hback d j hd with ⟨hfind, hn, ho⟩ | heq
    · refine Or.inl ?_
      rw [Namespace.find_remove, if_neg ho, Namespace.find_remove, if_neg hn, hfind]
    · exact Or.inr heq

/-- A path is found for every bound node. -/
lemma path (h : Rooted ns t) (hd : ns.find d = some i) : ∃ p, ns.pathFor i = some (some p) := by
  obtain ⟨r, hr⟩ := Namespace.pathFor_isSome h.named h.loopless i
  obtain ⟨p, rfl⟩ := Namespace.some_of_pathWithin h.linked.bound h.named h.placed
    (Or.inr ⟨d, hd⟩) hr
  exact ⟨p, hr⟩

end Rooted

end TypedFuse
