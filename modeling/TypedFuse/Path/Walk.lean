import TypedFuse.Path.Links

/-!
# Walking the namespace

A walk follows the bindings from the root along a list of names.  In a namespace without cycles the
recursion of `path_for` ends, and the path it computes is the rendering of a list of names along
which a walk leads to the node.
-/

namespace TypedFuse

open Relation

/-- The path whose components are the given names, as `path_for` builds it. -/
def Path.render (names : List Name) : Path :=
  names.foldl Path.push Path.root

namespace Namespace

variable {ns : Namespace} {d : Dentry} {i j : NodeId} {p q : List Name}

/-- Follow the bindings from a node along a list of names. -/
def walkFrom (ns : Namespace) (i : NodeId) (p : List Name) : Option NodeId :=
  p.foldlM (fun j name => ns.find ⟨j, name⟩) i

/-- Follow the bindings from the root along a list of names. -/
def walk (ns : Namespace) (p : List Name) : Option NodeId :=
  ns.walkFrom NodeId.ROOT p

/-- A name in the first directory is bound to the second node. -/
def Child (ns : Namespace) (i j : NodeId) : Prop :=
  ∃ name, ns.find ⟨i, name⟩ = some j

/-- A name in the first directory is bound to the second node, which is not the root. -/
def Below (ns : Namespace) (i j : NodeId) : Prop :=
  j ≠ NodeId.ROOT ∧ ns.Child i j

/-- The directory of the first alias of a node, with which `path_for` goes on. -/
def Up (ns : Namespace) (i j : NodeId) : Prop :=
  i ≠ NodeId.ROOT ∧ ∃ d, ns.firstAlias i = some d ∧ d.parent = j

/-- No node is below itself. -/
def Acyclic (ns : Namespace) : Prop :=
  ∀ i, ¬ TransGen ns.Child i i

/-- The two maps are inverse to each other. -/
def Inverse (ns : Namespace) : Prop :=
  ∀ d i, d ∈ ns.names i ↔ ns.find d = some i

/-- A node in which something is bound has at most one name. -/
def SingleAlias (ns : Namespace) : Prop :=
  ∀ d i, ns.find d = some i → (ns.names d.parent).card ≤ 1

/-! ## Walks -/

@[simp] lemma walkFrom_nil : ns.walkFrom i [] = some i := rfl

lemma walkFrom_append :
    ns.walkFrom i (p ++ q) = (ns.walkFrom i p).bind fun j => ns.walkFrom j q := by
  unfold walkFrom
  rw [List.foldlM_append]
  rfl

lemma walk_snoc (name : Name) :
    ns.walk (p ++ [name]) = (ns.walk p).bind fun j => ns.find ⟨j, name⟩ := by
  unfold walk
  rw [walkFrom_append]
  congr 1
  funext j
  simp [walkFrom]

lemma walk_snoc_eq_some {name : Name} :
    ns.walk (p ++ [name]) = some i ↔
      ∃ j, ns.walk p = some j ∧ ns.find ⟨j, name⟩ = some i := by
  rw [walk_snoc, Option.bind_eq_some_iff]

/-- What a walk through a name finds is below the node of the name. -/
lemma walk_through {name : Name} (h : ns.walk (p ++ name :: q) = some i)
    (hp : ns.walk p = some j) :
    ∃ m, ns.find ⟨j, name⟩ = some m ∧ ReflTransGen ns.Child m i := by
  induction q using List.reverseRecOn generalizing i with
  | nil =>
    obtain ⟨j', hj', hfind⟩ := walk_snoc_eq_some.mp h
    obtain rfl := Option.some.inj (hp.symm.trans hj')
    exact ⟨i, hfind, .refl⟩
  | append_singleton q x ih =>
    rw [show p ++ name :: (q ++ [x]) = (p ++ name :: q) ++ [x] by simp] at h
    obtain ⟨j', hj', hfind⟩ := walk_snoc_eq_some.mp h
    obtain ⟨m, hm, hbelow⟩ := ih hj'
    exact ⟨m, hm, hbelow.tail ⟨x, hfind⟩⟩

/-- The root is not bound below the root. -/
lemma walk_ne_root (hac : ns.Acyclic) {name : Name} :
    ns.walk (p ++ [name]) ≠ some NodeId.ROOT := by
  intro h
  cases p with
  | nil =>
    obtain ⟨j, hj, hfind⟩ := walk_snoc_eq_some.mp h
    obtain rfl := Option.some.inj hj
    exact hac _ (.single ⟨name, hfind⟩)
  | cons x p =>
    have h' : ns.walk ([] ++ x :: (p ++ [name])) = some NodeId.ROOT := by simpa using h
    obtain ⟨m, hm, hbelow⟩ := walk_through h' rfl
    exact hac _ (TransGen.head' ⟨x, hm⟩ hbelow)

/-- A node with at most one name in a namespace of single directories is found in one way only. -/
lemma walk_unique (hinv : ns.Inverse) (hac : ns.Acyclic) (hsingle : ns.SingleAlias)
    (hi : (ns.names i).card ≤ 1) (hp : ns.walk p = some i) (hq : ns.walk q = some i) : p = q := by
  induction p using List.reverseRecOn generalizing i q with
  | nil =>
    obtain rfl := Option.some.inj hp
    cases q using List.reverseRecOn with
    | nil => rfl
    | append_singleton q y => exact absurd hq (walk_ne_root hac)
  | append_singleton p x ih =>
    cases q using List.reverseRecOn with
    | nil =>
      obtain rfl := Option.some.inj hq
      exact absurd hp (walk_ne_root hac)
    | append_singleton q y =>
      obtain ⟨j, hj, hjx⟩ := walk_snoc_eq_some.mp hp
      obtain ⟨m, hm, hmy⟩ := walk_snoc_eq_some.mp hq
      -- both walks end in the only name of the node
      have heq := Finset.card_le_one.mp hi _ ((hinv _ _).mpr hjx) _ ((hinv _ _).mpr hmy)
      obtain ⟨rfl, rfl⟩ := Dentry.mk.inj heq
      rw [ih (hsingle _ _ hjx) hj hm]

/-! ## Paths -/

/-- What `path_for` answers is a list of names that leads to the node. -/
lemma walk_of_pathWithin (hnamed : ∀ d i, d ∈ ns.names i → ns.find d = some i) {fuel : ℕ}
    {path : Path} (h : ns.pathWithin fuel i = some (some path)) :
    ∃ p, path = Path.render p ∧ ns.walk p = some i := by
  induction fuel generalizing i path with
  | zero =>
    rw [pathWithin] at h
    split at h
    · next hi =>
      obtain rfl := Option.some.inj (Option.some.inj h)
      exact ⟨[], rfl, by rw [hi]; rfl⟩
    · split at h
      · cases h
      · cases h
  | succ fuel ih =>
    rw [pathWithin] at h
    split at h
    · next hi =>
      obtain rfl := Option.some.inj (Option.some.inj h)
      exact ⟨[], rfl, by rw [hi]; rfl⟩
    · split at h
      · cases h
      · next d hd =>
        dsimp only at h
        split at h
        · cases h
        · next parent hparent =>
          obtain ⟨path', rfl, rfl⟩ := Option.map_eq_some_iff.mp (Option.some.inj h)
          obtain ⟨p, rfl, hp⟩ := ih hparent
          refine ⟨p ++ [d.name], ?_, ?_⟩
          · rw [Path.render, Path.render, List.foldl_append]
            rfl
          · exact walk_snoc_eq_some.mpr ⟨d.parent, hp, hnamed d i (mem_of_firstAlias hd)⟩

/-- A recursion of `path_for` that does not end within its bound has visited a chain of named nodes,
each with its first alias in the next. -/
lemma chain_of_pathWithin_none {fuel : ℕ} (h : ns.pathWithin fuel i = none) :
    ∃ l : List NodeId, l.length = fuel ∧ List.IsChain ns.Up (i :: l) ∧
      ∀ a ∈ i :: l, a ∈ ns.aliases.keys := by
  have hkey : ∀ {a d}, ns.firstAlias a = some d → a ∈ ns.aliases.keys := by
    intro a d hd
    have hmem := mem_of_firstAlias hd
    unfold names at hmem
    rw [Finmap.mem_keys]
    by_contra hnot
    rw [Finmap.lookup_eq_none.mpr hnot] at hmem
    exact Finset.notMem_empty d hmem
  induction fuel generalizing i with
  | zero =>
    rw [pathWithin] at h
    split at h
    · cases h
    · split at h
      · cases h
      · next d hd =>
        refine ⟨[], rfl, .singleton _, ?_⟩
        intro a ha
        obtain rfl := List.mem_singleton.mp ha
        exact hkey hd
  | succ fuel ih =>
    rw [pathWithin] at h
    split at h
    · cases h
    · next hroot =>
      split at h
      · cases h
      · next d hd =>
        dsimp only at h
        split at h
        · next hparent =>
          obtain ⟨l, hlen, hchain, hkeys⟩ := ih hparent
          refine ⟨d.parent :: l, by rw [List.length_cons, hlen], ?_, ?_⟩
          · exact .cons_cons ⟨hroot, d, hd, rfl⟩ hchain
          · intro a ha
            rcases List.mem_cons.mp ha with rfl | ha
            · exact hkey hd
            · exact hkeys a ha
        · cases h

/-- If following first aliases from a node never runs into a cycle, the recursion of `path_for` ends
at it. -/
lemma pathFor_isSome_of_up (hac : ∀ j, ReflTransGen ns.Up i j → ¬ TransGen ns.Up j j) :
    ∃ r, ns.pathFor i = some r := by
  by_contra hnot
  have hnone : ns.pathWithin ns.aliases.keys.card i = none := by
    cases h : ns.pathWithin ns.aliases.keys.card i with
    | none => rfl
    | some r => exact absurd ⟨r, h⟩ hnot
  obtain ⟨l, hlen, hchain, hkeys⟩ := chain_of_pathWithin_none hnone
  have hpair : List.Pairwise (TransGen ns.Up) (i :: l) := by
    refine List.IsChain.pairwise (R := TransGen ns.Up) ?_
    exact hchain.imp fun a b hab => .single hab
  have hreach : ∀ a ∈ i :: l, ReflTransGen ns.Up i a := by
    intro a ha
    rcases List.mem_cons.mp ha with rfl | ha
    · exact .refl
    · exact (List.rel_of_pairwise_cons hpair ha).to_reflTransGen
  have hnodup : (i :: l).Nodup := by
    refine hpair.imp_of_mem ?_
    rintro a b ha _ hab rfl
    exact hac a (hreach a ha) hab
  -- more distinct nodes than there are sets of names
  have hle : (i :: l).toFinset.card ≤ ns.aliases.keys.card := by
    refine Finset.card_le_card ?_
    intro a ha
    exact hkeys a (List.mem_toFinset.mp ha)
  rw [List.toFinset_card_of_nodup hnodup, List.length_cons, hlen] at hle
  omega

/-- If no node but the root is below itself, the recursion of `path_for` ends. -/
lemma pathFor_isSome (hnamed : ∀ d i, d ∈ ns.names i → ns.find d = some i)
    (hac : ∀ i, ¬ TransGen ns.Below i i) (i : NodeId) : ∃ r, ns.pathFor i = some r := by
  refine pathFor_isSome_of_up ?_
  intro j _ hj
  refine hac j (transGen_swap.mp (TransGen.mono (fun a b hab => ?_) j j hj))
  obtain ⟨ha, d, hd, rfl⟩ := hab
  exact ⟨ha, d.name, hnamed d a (mem_of_firstAlias hd)⟩

/-- `path_for` ends, and a path that it answers leads to the node. -/
theorem pathFor_resolves (hnamed : ∀ d i, d ∈ ns.names i → ns.find d = some i)
    (hac : ns.Acyclic) (i : NodeId) :
    ∃ r, ns.pathFor i = some r ∧
      ∀ path, r = some path → ∃ p, path = Path.render p ∧ ns.walk p = some i := by
  have hbelow : ns.Below ≤ ns.Child := fun _ _ hab => hab.2
  have hloop : ∀ j, ¬ TransGen ns.Below j j :=
    fun j hj => hac j (TransGen.mono hbelow j j hj)
  obtain ⟨r, hr⟩ := pathFor_isSome hnamed hloop i
  refine ⟨r, hr, ?_⟩
  rintro path rfl
  exact walk_of_pathWithin hnamed hr

end Namespace

/-! ## Ascents -/

/-- The first one of a set of names. -/
def Dentry.firstOf (names : Finset Dentry) : Option Dentry :=
  if h : names.Nonempty then some (names.min' h) else none

/-- If nodes are addressed by the names `first`, following these from the node reaches the root, and
the path is what that spells. -/
inductive Spells (first : NodeId → Option Dentry) : NodeId → Path → Prop where
  | root : Spells first NodeId.ROOT Path.root
  | step {i : NodeId} {d : Dentry} {p : Path} (hi : i ≠ NodeId.ROOT)
    (h : first i = some d) (hp : Spells first d.parent p) : Spells first i (p.push d.name)

/-- A node has one path. -/
lemma Spells.unique {first : NodeId → Option Dentry} {i : NodeId} {p q : Path}
    (h : Spells first i p) (h' : Spells first i q) : p = q := by
  induction h generalizing q with
  | root =>
    cases h' with
    | root => rfl
    | step hi _ _ => exact absurd rfl hi
  | @step i d p hi hd _ ih =>
    cases h' with
    | root => exact absurd rfl hi
    | @step _ d' q _ hd' hq =>
      obtain rfl : d = d' := Option.some.inj (hd.symm.trans hd')
      rw [ih hq]

namespace Namespace

variable {ns : Namespace} {d : Dentry} {i j : NodeId} {p q : Path}

/-- Following first aliases from the node reaches the root or a node without alias. -/
inductive Ends (ns : Namespace) : NodeId → Prop where
  | root : Ends ns NodeId.ROOT
  | bare {i : NodeId} (h : ns.firstAlias i = none) : Ends ns i
  | step {i : NodeId} {d : Dentry} (h : ns.firstAlias i = some d) (hp : Ends ns d.parent) :
    Ends ns i

/-- Following first aliases from the node reaches the root, and the path is what `path_for`
builds. -/
abbrev PathOf (ns : Namespace) : NodeId → Path → Prop :=
  Spells ns.firstAlias

/-- An ascent that ends does not return. -/
lemma Ends.not_transGen (h : ns.Ends i) : ¬ TransGen ns.Up i i := by
  induction h with
  | root =>
    intro hi
    obtain ⟨j, hj, _⟩ := TransGen.head'_iff.mp hi
    exact hj.1 rfl
  | bare h =>
    intro hi
    obtain ⟨j, ⟨_, d, hd, _⟩, _⟩ := TransGen.head'_iff.mp hi
    rw [h] at hd
    cases hd
  | @step i d h _ ih =>
    intro hi
    obtain ⟨j, hij, hji⟩ := TransGen.head'_iff.mp hi
    have hback := TransGen.tail' hji hij
    obtain ⟨_, d', hd', rfl⟩ := hij
    obtain rfl : d = d' := Option.some.inj (h.symm.trans hd')
    exact ih hback

/-- If all ascents end, so does the recursion of `path_for`. -/
lemma pathFor_isSome_of_ends (h : ∀ i, ns.Ends i) (i : NodeId) : ∃ r, ns.pathFor i = some r :=
  pathFor_isSome_of_up fun j _ => (h j).not_transGen

lemma pathOf_of_pathWithin {fuel : ℕ} (h : ns.pathWithin fuel i = some (some p)) :
    ns.PathOf i p := by
  induction fuel generalizing i p with
  | zero =>
    rw [pathWithin] at h
    split at h
    · next hi =>
      obtain rfl := Option.some.inj (Option.some.inj h)
      rw [hi]
      exact .root
    · split at h
      · cases h
      · cases h
  | succ fuel ih =>
    rw [pathWithin] at h
    split at h
    · next hi =>
      obtain rfl := Option.some.inj (Option.some.inj h)
      rw [hi]
      exact .root
    · next hi =>
      split at h
      · cases h
      · next d hd =>
        dsimp only at h
        split at h
        · cases h
        · next parent hparent =>
          obtain ⟨p', rfl, rfl⟩ := Option.map_eq_some_iff.mp (Option.some.inj h)
          exact .step hi hd (ih hparent)

lemma pathOf_of_pathFor (h : ns.pathFor i = some (some p)) : ns.PathOf i p :=
  pathOf_of_pathWithin h

/-- A node with a path is the root or has an alias. -/
lemma PathOf.names_nonempty (h : ns.PathOf i p) (hi : i ≠ NodeId.ROOT) :
    (ns.names i).Nonempty := by
  cases h with
  | root => exact absurd rfl hi
  | step _ hd _ => exact ⟨_, mem_of_firstAlias hd⟩

/-- What lies above a node with a path has a path. -/
lemma PathOf.above (h : ns.PathOf i p) (hj : ReflTransGen ns.Up i j) : ∃ q, ns.PathOf j q := by
  induction hj with
  | refl => exact ⟨p, h⟩
  | tail _ hup ih =>
    obtain ⟨q, hq⟩ := ih
    obtain ⟨hroot, d, hd, rfl⟩ := hup
    cases hq with
    | root => exact absurd rfl hroot
    | step _ hd' hp' =>
      obtain rfl := Option.some.inj (hd'.symm.trans hd)
      exact ⟨_, hp'⟩

lemma PathOf.ends (h : ns.PathOf i p) : ns.Ends i := by
  induction h with
  | root => exact .root
  | step _ hd _ ih => exact .step hd ih

/-- A recursion of `path_for` that ends answers with the path. -/
lemma pathWithin_eq_of_pathOf (h : ns.PathOf i p) {fuel : ℕ} {r : Option Path}
    (hr : ns.pathWithin fuel i = some r) : r = some p := by
  induction h generalizing fuel r with
  | root =>
    unfold pathWithin at hr
    rw [if_pos rfl] at hr
    exact (Option.some.inj hr).symm
  | @step i d p hi hd _ ih =>
    unfold pathWithin at hr
    rw [if_neg hi, hd] at hr
    cases fuel with
    | zero => cases hr
    | succ fuel =>
      dsimp only at hr
      split at hr
      · cases hr
      · next parent hparent =>
        rw [ih hparent] at hr
        exact (Option.some.inj hr).symm

/-- `path_for` answers with the path that first aliases spell. -/
theorem pathFor_eq_some_iff : ns.pathFor i = some (some p) ↔ ns.PathOf i p := by
  refine ⟨pathOf_of_pathFor, ?_⟩
  intro h
  -- the ascent ends, so the recursion does
  have hup : ∀ j, ReflTransGen ns.Up i j → ¬ TransGen ns.Up j j := by
    intro j hj
    obtain ⟨q, hq⟩ := h.above hj
    exact hq.ends.not_transGen
  obtain ⟨r, hr⟩ := pathFor_isSome_of_up hup
  rw [hr, pathWithin_eq_of_pathOf h hr]

end Namespace

/-! ## One more edge -/

/-- A connection with one more edge goes along the old edges, or passes the new one. -/
lemma transGen_insert_edge {α : Type} {R R' : α → α → Prop} {u v : α}
    (hR : ∀ a b, R' a b → R a b ∨ (a = u ∧ b = v)) {a b : α} (h : TransGen R' a b) :
    TransGen R a b ∨ (ReflTransGen R a u ∧ ReflTransGen R v b) := by
  induction h with
  | single hab =>
    rcases hR _ _ hab with hab | ⟨rfl, rfl⟩
    · exact Or.inl (.single hab)
    · exact Or.inr ⟨.refl, .refl⟩
  | tail _ hbc ih =>
    rcases hR _ _ hbc with hbc | ⟨rfl, rfl⟩
    · rcases ih with ih | ⟨hau, hvb⟩
      · exact Or.inl (ih.tail hbc)
      · exact Or.inr ⟨hau, hvb.tail hbc⟩
    · rcases ih with ih | ⟨hau, _⟩
      · exact Or.inr ⟨ih.to_reflTransGen, .refl⟩
      · exact Or.inr ⟨hau, .refl⟩

end TypedFuse
