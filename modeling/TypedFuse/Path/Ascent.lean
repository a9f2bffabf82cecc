import TypedFuse.Path.Backed

/-!
# Following first aliases

`path_for` follows the first alias of a node into its directory, the first alias of that, and so
on.  The recursion ends if this never returns to a node.  `Ascending` keeps track of why it does
not: a node in which a name is ever bound has at most one alias, so that a change of aliases moves
the ascents of other nodes only if it is that alias, and then the new directory does not lie below.

A name that begins with a separator replaces the path of its directory in `PathBuf::push`, and then
paths do not tell which node lies below which.
-/

namespace TypedFuse

open Conc NodeTable Relation TypedFuse.Runtime

/-! ## Paths below paths -/

/-- The name stays below its directory when it is pushed. -/
def Name.Relative (name : Name) : Prop :=
  name.head? ≠ some 47

instance (name : Name) : Decidable name.Relative :=
  inferInstanceAs (Decidable (_ ≠ _))

/-- The second path is the first one or lies below it. -/
def Path.Under (p q : Path) : Prop :=
  q = p ∨ ∃ name : Name, name.Relative ∧ q = p.push name

namespace Path

variable {p q r : Path} {name name' : Name}

lemma push_relative (h : Name.Relative name) :
    p.push name = if p = [] ∨ p.getLast? = some 47 then p ++ name else p ++ 47 :: name :=
  if_neg h

/-- Two names that are pushed one after the other are one. -/
lemma push_push (h : Name.Relative name) (h' : Name.Relative name') :
    ∃ both : Name, both.Relative ∧ (p.push name).push name' = p.push both := by
  by_cases hnil : name = []
  · subst hnil
    refine ⟨name', h', ?_⟩
    rw [push_relative h, push_relative h', push_relative h']
    by_cases hp : p = [] ∨ p.getLast? = some 47
    · simp [hp]
    · simp [hp]
  · have hjoin : ∃ rest : List UInt8, ∀ p₀ : Path, (p₀ ++ name).push name' =
        p₀ ++ (name ++ rest) := by
      by_cases hlast : name.getLast? = some 47
      · refine ⟨name', ?_⟩
        intro p₀
        rw [push_relative h', if_pos, List.append_assoc]
        exact Or.inr (by rw [List.getLast?_append_of_ne_nil _ hnil, hlast])
      · refine ⟨47 :: name', ?_⟩
        intro p₀
        rw [push_relative h', if_neg, List.append_assoc]
        rw [List.getLast?_append_of_ne_nil _ hnil, not_or]
        exact ⟨fun he => hnil (List.append_eq_nil_iff.mp he).2, hlast⟩
    obtain ⟨rest, hrest⟩ := hjoin
    have hboth : Name.Relative (name ++ rest) := by
      unfold Name.Relative at h ⊢
      rwa [List.head?_append_of_ne_nil _ hnil]
    refine ⟨name ++ rest, hboth, ?_⟩
    rw [push_relative h, push_relative hboth]
    by_cases hp : p = [] ∨ p.getLast? = some 47
    · rw [if_pos hp, if_pos hp, hrest]
    · rw [if_neg hp, if_neg hp, List.append_cons, hrest, ← List.append_cons]

lemma Under.refl (p : Path) : Under p p :=
  Or.inl rfl

lemma Under.push (p : Path) (h : Name.Relative name) : Under p (p.push name) :=
  Or.inr ⟨name, h, rfl⟩

lemma Under.trans (h : Under p q) (h' : Under q r) : Under p r := by
  rcases h with rfl | ⟨name, hname, rfl⟩
  · exact h'
  · rcases h' with rfl | ⟨name', hname', rfl⟩
    · exact Or.inr ⟨name, hname, rfl⟩
    · obtain ⟨both, hboth, heq⟩ := push_push (p := p) hname hname'
      exact Or.inr ⟨both, hboth, heq⟩

end Path

/-! ## Ascents -/

namespace Namespace

variable {ns ns' : Namespace} {d : Dentry} {i j : NodeId} {p q : Path}

/-- An ascent to the root stays if no node on it changes its first alias. -/
lemma PathOf.congr (h : ns.PathOf i p)
    (hsame : ∀ j, ReflTransGen ns.Up i j → j ≠ NodeId.ROOT →
      ns'.firstAlias j = ns.firstAlias j) :
    ns'.PathOf i p := by
  induction h with
  | root => exact .root
  | @step i d p hi hd _ ih =>
    refine .step hi ((hsame i .refl hi).trans hd) (ih ?_)
    intro j hj hroot
    exact hsame j (.head ⟨hi, d, hd, rfl⟩ hj) hroot

lemma firstAlias_congr (h : ns'.names i = ns.names i) : ns'.firstAlias i = ns.firstAlias i := by
  unfold firstAlias
  simp only [h]

/-- A node with at most one alias has lost it or has it still. -/
lemma firstAlias_of_subset (hcard : (ns.names i).card ≤ 1) (h : ns'.names i ⊆ ns.names i)
    (hd : ns'.firstAlias i = some d) : ns.firstAlias i = some d := by
  have hmem := h (mem_of_firstAlias hd)
  cases halias : ns.firstAlias i with
  | none =>
    rw [firstAlias_eq_none.mp halias] at hmem
    exact absurd hmem (Finset.notMem_empty d)
  | some d' =>
    rw [Finset.card_le_one.mp hcard d hmem d' (mem_of_firstAlias halias)]

end Namespace

/-! ## Changes of aliases -/

/-- Every name is relative and lies in one of the nodes `parents`, these have at most one alias, and
all ascents end. -/
structure Ascending (parents : Set NodeId) (ns : Namespace) : Prop where
  inside : ∀ i d, d ∈ ns.names i → d.parent ∈ parents ∧ d.name.Relative
  single : ∀ i ∈ parents, (ns.names i).card ≤ 1
  ends : ∀ i, ns.Ends i

namespace Ascending

variable {parents : Set NodeId} {ns ns' : Namespace} {d : Dentry} {i j : NodeId} {p : Path}

/-- All ascents end if those of the nodes `parents` stay on the old aliases or go where ascents
end. -/
lemma of_changed (h : Ascending parents ns)
    (hinside : ∀ i d, d ∈ ns'.names i → d.parent ∈ parents ∧ d.name.Relative)
    (hsingle : ∀ i ∈ parents, (ns'.names i).card ≤ 1)
    (hchanged : ∀ i ∈ parents, ns'.names i ⊆ ns.names i ∨
      ∀ d ∈ ns'.names i, ns'.Ends d.parent) :
    Ascending parents ns' := by
  have hparents : ∀ i, i ∈ parents → ns'.Ends i := by
    intro i
    induction h.ends i with
    | root => exact fun _ => .root
    | @bare i hbare =>
      intro hi
      cases hd : ns'.firstAlias i with
      | none => exact .bare hd
      | some d =>
        rcases hchanged i hi with hsub | hends
        · rw [Namespace.firstAlias_of_subset (h.single i hi) hsub hd] at hbare
          cases hbare
        · exact .step hd (hends d (Namespace.mem_of_firstAlias hd))
    | @step i d₀ hd₀ _ ih =>
      intro hi
      cases hd : ns'.firstAlias i with
      | none => exact .bare hd
      | some d =>
        rcases hchanged i hi with hsub | hends
        · have hsame := Namespace.firstAlias_of_subset (h.single i hi) hsub hd
          obtain rfl : d = d₀ := Option.some.inj (hsame.symm.trans hd₀)
          exact .step hd (ih (hinside i d (Namespace.mem_of_firstAlias hd)).1)
        · exact .step hd (hends d (Namespace.mem_of_firstAlias hd))
  refine ⟨hinside, hsingle, ?_⟩
  intro i
  cases hd : ns'.firstAlias i with
  | none => exact .bare hd
  | some d => exact .step hd (hparents _ (hinside i d (Namespace.mem_of_firstAlias hd)).1)

/-- The ascent of a directory with a path still ends if its nodes keep their aliases, or at least
those nodes do whose paths the path of the directory lies under. -/
lemma ends_above (h : Ascending parents ns) (hp : ns.PathOf j p) (hj : j ∈ parents)
    (hsub : ∀ i ∈ parents, i ≠ NodeId.ROOT → ns'.names i ⊆ ns.names i ∨
      ∀ q, ns.PathOf i q → ¬ Path.Under q p) : ns'.Ends j := by
  have habove : ∀ i q, ns.PathOf i q → i ∈ parents → Path.Under q p → ns'.Ends i := by
    intro i q hq
    induction hq with
    | root => exact fun _ _ => .root
    | @step i d₀ q hi hd₀ hq ih =>
      intro hmem hunder
      rcases hsub i hmem hi with hsub | hnot
      · cases hd : ns'.firstAlias i with
        | none => exact .bare hd
        | some d =>
          have hsame := Namespace.firstAlias_of_subset (h.single i hmem) hsub hd
          obtain rfl : d = d₀ := Option.some.inj (hsame.symm.trans hd₀)
          obtain ⟨hparent, hrel⟩ := h.inside i d (Namespace.mem_of_firstAlias hd₀)
          exact .step hd (ih hparent ((Path.Under.push q hrel).trans hunder))
      · exact absurd hunder (hnot _ (.step hi hd₀ hq))
  exact habove j p hp hj (.refl p)

/-- A node with a single alias has it as its first one. -/
lemma firstAlias_eq (h : Ascending parents ns) (hi : i ∈ parents) (hd : d ∈ ns.names i) :
    ns.firstAlias i = some d := by
  cases halias : ns.firstAlias i with
  | none =>
    rw [Namespace.firstAlias_eq_none.mp halias] at hd
    exact absurd hd (Finset.notMem_empty d)
  | some d' =>
    rw [Finset.card_le_one.mp (h.single i hi) d hd d' (Namespace.mem_of_firstAlias halias)]

/-- A first alias for a node without one, in a directory with a path. -/
lemma recorded (h : Ascending parents ns) {id : NodeId} (hnone : ns.names id = ∅)
    (hroot : id ≠ NodeId.ROOT) (hp : ns.PathOf d.parent p) (hmem : d.parent ∈ parents)
    (hrel : d.name.Relative)
    (hnames : ∀ i, ns'.names i = if i = id then insert d (ns.names id) else ns.names i) :
    Ascending parents ns' := by
  have hends : ns'.Ends d.parent := by
    refine h.ends_above hp hmem ?_
    intro i _ _
    by_cases hi : i = id
    · refine Or.inr ?_
      intro q hq
      have hne := hq.names_nonempty (by rw [hi]; exact hroot)
      rw [hi, hnone] at hne
      exact absurd hne Finset.not_nonempty_empty
    · rw [hnames, if_neg hi]
      exact Or.inl (Finset.Subset.refl _)
  refine h.of_changed ?_ ?_ ?_
  · intro i d' hd'
    rw [hnames] at hd'
    split at hd'
    · rw [hnone] at hd'
      rw [Finset.mem_singleton.mp hd']
      exact ⟨hmem, hrel⟩
    · exact h.inside i d' hd'
  · intro i hi
    rw [hnames]
    split
    · rw [hnone]
      exact le_of_eq (Finset.card_singleton d)
    · exact h.single i hi
  · intro i _
    by_cases hi : i = id
    · refine Or.inr ?_
      intro d' hd'
      rw [hnames, if_pos hi, hnone] at hd'
      rw [Finset.mem_singleton.mp hd']
      exact hends
    · rw [hnames, if_neg hi]
      exact Or.inl (Finset.Subset.refl _)

/-- Losing names. -/
lemma of_subset (h : Ascending parents ns) (hsub : ∀ i, ns'.names i ⊆ ns.names i) :
    Ascending parents ns' := by
  refine h.of_changed ?_ ?_ fun i _ => Or.inl (hsub i)
  · exact fun i d hd => h.inside i d (hsub i hd)
  · exact fun i hi => (Finset.card_le_card (hsub i)).trans (h.single i hi)

/-- Removing a name. -/
lemma removed (h : Ascending parents ns) (hd : ns.find d = some i) :
    Ascending parents (ns.remove d).2 := by
  refine h.of_subset ?_
  intro j
  rw [Namespace.names_remove hd]
  split
  · next hj =>
    rw [hj]
    exact Finset.erase_subset _ _
  · exact Finset.Subset.refl _

/-- One more alias of a node in which no name is bound. -/
lemma linked (h : Ascending parents ns) (hi : i ∉ parents) (hmem : d.parent ∈ parents)
    (hrel : d.name.Relative) : Ascending parents (ns.addAlias i d) := by
  have hnames : ∀ j ∈ parents, (ns.addAlias i d).names j = ns.names j := by
    intro j hj
    rw [Namespace.names_addAlias, if_neg]
    rintro rfl
    exact hi hj
  refine h.of_changed ?_ ?_ ?_
  · intro j d' hd'
    rw [Namespace.names_addAlias] at hd'
    split at hd'
    · rcases Finset.mem_insert.mp hd' with rfl | hd'
      · exact ⟨hmem, hrel⟩
      · exact h.inside i d' hd'
    · exact h.inside j d' hd'
  · intro j hj
    rw [hnames j hj]
    exact h.single j hj
  · intro j hj
    rw [hnames j hj]
    exact Or.inl (Finset.Subset.refl _)

/-- Moving a name to a directory whose path does not lie under the old one. -/
lemma moved (h : Ascending parents ns) {old new : Dentry} {source : NodeId} {p₀ : Path}
    (hbound : ∀ d i, ns.find d = some i → d ∈ ns.names i) (hold : ns.find old = some source)
    (hnew : ns.find new ≠ some source) (hp₀ : ns.PathOf old.parent p₀)
    (hp : ns.PathOf new.parent p) (hunder : ¬ Path.Under (p₀.push old.name) p)
    (hmem : new.parent ∈ parents) (hrel : new.name.Relative) :
    Ascending parents (ns.move old new source) := by
  have hne : old ≠ new := by
    rintro rfl
    exact hnew hold
  have hsource := hbound old source hold
  have hother : ∀ i, i ≠ source → (ns.move old new source).names i ⊆ ns.names i := by
    intro i hi
    rw [Namespace.names_move_other hne hold hi]
    split
    · exact Finset.erase_subset _ _
    · exact Finset.Subset.refl _
  -- the only alias of a node in which names are bound is the moved one
  have honly : source ∈ parents → (ns.move old new source).names source = {new} := by
    intro hs
    have hsingle : ns.names source = {old} := by
      apply Finset.eq_singleton_iff_unique_mem.mpr
      exact ⟨hsource, fun d hd => Finset.card_le_one.mp (h.single source hs) d hd old hsource⟩
    rw [Namespace.names_move_source hne hold hnew, hsingle, Finset.erase_singleton]
    rfl
  have hends : (ns.move old new source).Ends new.parent := by
    refine h.ends_above hp hmem ?_
    intro i hi hroot
    by_cases his : i = source
    · refine Or.inr ?_
      intro q hq
      subst his
      have hpath : ns.PathOf i (p₀.push old.name) :=
        .step hroot (h.firstAlias_eq hi hsource) hp₀
      rw [hq.unique hpath]
      exact hunder
    · exact Or.inl (hother i his)
  refine h.of_changed ?_ ?_ ?_
  · intro i d hd
    by_cases his : i = source
    · subst his
      rw [Namespace.names_move_source hne hold hnew] at hd
      rcases Finset.mem_insert.mp hd with rfl | hd
      · exact ⟨hmem, hrel⟩
      · exact h.inside i d (Finset.mem_of_mem_erase hd)
    · exact h.inside i d (hother i his hd)
  · intro i hi
    by_cases his : i = source
    · subst his
      rw [honly hi]
      exact le_of_eq (Finset.card_singleton new)
    · exact (Finset.card_le_card (hother i his)).trans (h.single i hi)
  · intro i hi
    by_cases his : i = source
    · subst his
      rw [honly hi]
      refine Or.inr ?_
      intro d hd
      rw [Finset.mem_singleton.mp hd]
      exact hends
    · exact Or.inl (hother i his)

end Ascending

end TypedFuse
