import TypedFuse.Path.Namespace

/-!
# Names and link counts

Every name of a node stands for one link in the inode table, and the root has one link more.  The
two sides are changed one after the other, so the balance has two more entries: `owed` counts the
links that are there without a name, because a node was just inserted or has just lost a name, and
`lent` the names that were added before their link.

`Linked` is what always holds: there are enough links for the names.  It is exact as long as no
name is overwritten, which is the assumption `exact`.
-/

namespace TypedFuse

/-- The link that the root has without a name. -/
def rootLink (i : NodeId) : ℕ :=
  if i = NodeId.ROOT then 1 else 0

/-- The names, the links and what is owed and lent between them. -/
structure Linked (exact : Prop) (links : NodeId → ℕ) (ns : Namespace)
    (owed lent : NodeId → ℕ) : Prop where
  /-- A bound name is a name of its node. -/
  bound : ∀ d i, ns.find d = some i → d ∈ ns.names i
  /-- There are enough links. -/
  enough : ∀ i, (ns.names i).card + rootLink i + owed i ≤ links i + lent i
  /-- A node with a name that was added before its link has another link. -/
  lentNamed : ∀ i, 0 < lent i → lent i = 1 ∧ 2 ≤ (ns.names i).card + rootLink i
  /-- No set of names is stored empty. -/
  noEmpty : ns.NoEmptyAlias
  /-- A name of a node is bound to it. -/
  named : exact → ∀ d i, d ∈ ns.names i → ns.find d = some i
  /-- There are no more links than names. -/
  balanced : exact → ∀ i, (ns.names i).card + rootLink i + owed i = links i + lent i

namespace Namespace

variable {ns : Namespace} {d : Dentry} {id : NodeId}

lemma NoEmptyAlias.addAlias (h : ns.NoEmptyAlias) (id : NodeId) (d : Dentry) :
    (ns.addAlias id d).NoEmptyAlias := by
  intro i hi
  change (ns.aliases.insert id (insert d (ns.names id))).lookup i = some ∅ at hi
  rw [BTreeMap.lookup_insert_ite] at hi
  split at hi
  · exact Finset.insert_ne_empty d _ (Option.some.inj hi)
  · exact h i hi

lemma NoEmptyAlias.remove (h : ns.NoEmptyAlias) (d : Dentry) :
    (ns.remove d).2.NoEmptyAlias := by
  intro i
  unfold Namespace.remove
  split
  · exact h i
  · next id hd =>
    dsimp only
    split
    · exact h i
    · split
      · rw [BTreeMap.lookup_erase_ite]
        split
        · exact fun hi => nomatch hi
        · exact h i
      · next hne =>
        rw [BTreeMap.lookup_insert_ite]
        split
        · exact fun hi => hne (Option.some.inj hi)
        · exact h i

end Namespace

namespace Linked

variable {exact : Prop} {links links' owed owed' lent lent' : NodeId → ℕ} {ns ns' : Namespace}
  {d : Dentry} {id : NodeId}

/-- A node without links has no names, and nothing is owed to it. -/
lemma of_unlinked (h : Linked exact links ns owed lent) (hid : links id = 0) :
    ns.names id = ∅ ∧ id ≠ NodeId.ROOT ∧ owed id = 0 := by
  have henough := h.enough id
  have hlent : lent id = 0 := by
    by_contra hne
    have := h.lentNamed id (Nat.pos_of_ne_zero hne)
    omega
  refine ⟨Finset.card_eq_zero.mp (by omega), ?_, by omega⟩
  intro hroot
  rw [rootLink, if_pos hroot] at henough
  omega

/-- A bound node has a link. -/
lemma links_pos (h : Linked exact links ns owed lent) (hd : ns.find d = some id) :
    0 < links id := by
  by_contra hne
  have hnames := (h.of_unlinked (Nat.eq_zero_of_not_pos hne)).1
  have hmem := h.bound d id hd
  rw [hnames] at hmem
  exact Finset.notMem_empty d hmem

/-- A change that leaves the bindings and the counts alone. -/
lemma congr (h : Linked exact links ns owed lent) (hfind : ∀ d, ns'.find d = ns.find d)
    (haliases : ns'.aliases = ns.aliases) (hlinks : ∀ i, links' i = links i)
    (howed : ∀ i, owed' i = owed i) (hlent : ∀ i, lent' i = lent i) :
    Linked exact links' ns' owed' lent' := by
  have hnames : ∀ i, ns'.names i = ns.names i := by
    intro i
    unfold Namespace.names
    rw [haliases]
  refine ⟨?_, ?_, ?_, ?_, ?_, ?_⟩
  · intro d i hd
    rw [hfind] at hd
    rw [hnames]
    exact h.bound d i hd
  · intro i
    rw [hnames, hlinks, howed, hlent]
    exact h.enough i
  · intro i hi
    rw [hlent] at hi ⊢
    rw [hnames]
    exact h.lentNamed i hi
  · intro i
    rw [haliases]
    exact h.noEmpty i
  · intro hex d i hd
    rw [hnames] at hd
    rw [hfind]
    exact h.named hex d i hd
  · intro hex i
    rw [hnames, hlinks, howed, hlent]
    exact h.balanced hex i

/-- Links that are added or removed together with what is owed. -/
lemma shift (h : Linked exact links ns owed lent)
    (hshift : ∀ i, owed' i + links i = links' i + owed i) :
    Linked exact links' ns owed' lent := by
  refine ⟨h.bound, ?_, h.lentNamed, h.noEmpty, h.named, ?_⟩
  · intro i
    have h₁ := h.enough i
    have h₂ := hshift i
    omega
  · intro hex i
    have h₁ := h.balanced hex i
    have h₂ := hshift i
    omega

/-- An added name is a name of its node; a node that it was bound to before may keep it. -/
lemma bound_addAlias (h : Linked exact links ns owed lent) (d' : Dentry) (i : NodeId)
    (hd' : (ns.addAlias id d).find d' = some i) : d' ∈ (ns.addAlias id d).names i := by
  rw [Namespace.find_addAlias] at hd'
  rw [Namespace.names_addAlias]
  split at hd'
  · next heq =>
    obtain rfl := Option.some.inj hd'
    rw [if_pos rfl, heq]
    exact Finset.mem_insert_self d _
  · have hmem := h.bound d' i hd'
    split
    · next hi =>
      rw [hi] at hmem
      exact Finset.mem_insert_of_mem hmem
    · exact hmem

/-- Adding a free name keeps names and bindings inverse to each other. -/
lemma named_addAlias (h : Linked exact links ns owed lent) (hex : exact) (hfree : ns.find d = none)
    (d' : Dentry) (i : NodeId) (hd' : d' ∈ (ns.addAlias id d).names i) :
    (ns.addAlias id d).find d' = some i := by
  rw [Namespace.names_addAlias] at hd'
  rw [Namespace.find_addAlias]
  split at hd'
  · next hi =>
    subst hi
    rcases Finset.mem_insert.mp hd' with rfl | hmem
    · exact if_pos rfl
    · split
      · rfl
      · exact h.named hex d' i hmem
  · have hfind := h.named hex d' i hd'
    rw [if_neg]
    · exact hfind
    · rintro rfl
      rw [hfind] at hfree
      cases hfree

/-- Binding a free name to a node that is owed a link for it. -/
lemma addAlias (h : Linked exact links ns owed lent) (hfree : ns.find d = none)
    (hlent : ∀ i, lent i = 0) (howed : ∀ i, owed i = owed' i + if i = id then 1 else 0) :
    Linked exact links (ns.addAlias id d) owed' lent := by
  have hnew : exact → d ∉ ns.names id := by
    intro hex hmem
    rw [h.named hex d id hmem] at hfree
    cases hfree
  refine ⟨h.bound_addAlias, ?_, ?_, h.noEmpty.addAlias id d, ?_, ?_⟩
  · intro i
    have h₁ := h.enough i
    have h₂ := howed i
    rw [Namespace.names_addAlias]
    by_cases hi : i = id
    · subst hi
      rw [if_pos rfl] at h₂ ⊢
      have hcard := Finset.card_insert_le d (ns.names i)
      omega
    · rw [if_neg hi] at h₂ ⊢
      omega
  · intro i hi
    rw [hlent i] at hi
    exact absurd hi (lt_irrefl 0)
  · exact fun hex => h.named_addAlias hex hfree
  · intro hex i
    have h₁ := h.balanced hex i
    have h₂ := howed i
    rw [Namespace.names_addAlias]
    by_cases hi : i = id
    · subst hi
      rw [if_pos rfl] at h₂ ⊢
      rw [Finset.card_insert_of_notMem (hnew hex)]
      omega
    · rw [if_neg hi] at h₂ ⊢
      omega

/-- Unbinding a name: its node is left with a link too many. -/
lemma remove (h : Linked exact links ns owed lent) (hd : ns.find d = some id)
    (hlent : ∀ i, lent i = 0) (howed : ∀ i, owed' i = owed i + if i = id then 1 else 0) :
    Linked exact links (ns.remove d).2 owed' lent := by
  have hmem := h.bound d id hd
  have hcard := Finset.card_erase_add_one hmem
  refine ⟨?_, ?_, ?_, h.noEmpty.remove d, ?_, ?_⟩
  · intro d' i hd'
    rw [Namespace.find_remove] at hd'
    split at hd'
    · cases hd'
    · next hne =>
      have hmem' := h.bound d' i hd'
      rw [Namespace.names_remove hd]
      split
      · next hi =>
        rw [hi] at hmem'
        exact Finset.mem_erase.mpr ⟨hne, hmem'⟩
      · exact hmem'
  · intro i
    have h₁ := h.enough i
    have h₂ := howed i
    rw [Namespace.names_remove hd]
    by_cases hi : i = id
    · subst hi
      rw [if_pos rfl] at h₂ ⊢
      omega
    · rw [if_neg hi] at h₂ ⊢
      omega
  · intro i hi
    rw [hlent i] at hi
    exact absurd hi (lt_irrefl 0)
  · intro hex d' i hd'
    rw [Namespace.names_remove hd] at hd'
    rw [Namespace.find_remove]
    split at hd'
    · next hi =>
      obtain ⟨hne, hmem'⟩ := Finset.mem_erase.mp hd'
      rw [if_neg hne, hi]
      exact h.named hex d' id hmem'
    · next hi =>
      have hfind := h.named hex d' i hd'
      rw [if_neg]
      · exact hfind
      · rintro rfl
        rw [hfind] at hd
        exact hi (Option.some.inj hd)
  · intro hex i
    have h₁ := h.balanced hex i
    have h₂ := howed i
    rw [Namespace.names_remove hd]
    by_cases hi : i = id
    · subst hi
      rw [if_pos rfl] at h₂ ⊢
      omega
    · rw [if_neg hi] at h₂ ⊢
      omega

/-- Adding a name to a node with a path before its link: the link is lent, or the node had the name
already.  The name may be bound to another node, which keeps it among its names. -/
lemma borrow (h : Linked exact links ns owed lent) (hnamed : id = NodeId.ROOT ∨
    (ns.names id).Nonempty) (hfree : exact → ns.find d = none) (hlent : ∀ i, lent i = 0)
    (hlent' : ∀ i, lent' i = if i = id ∧ d ∉ ns.names id then 1 else 0) :
    Linked exact links (ns.addAlias id d) owed lent' := by
  have hnew : exact → d ∉ ns.names id := by
    intro hex hmem
    have hfree' := hfree hex
    rw [h.named hex d id hmem] at hfree'
    cases hfree'
  have hcard : ∀ i, ((ns.addAlias id d).names i).card =
      (ns.names i).card + if i = id ∧ d ∉ ns.names id then 1 else 0 := by
    intro i
    rw [Namespace.names_addAlias]
    by_cases hi : i = id
    · subst hi
      by_cases hmem : d ∈ ns.names i
      · simp [hmem]
      · simp [hmem]
    · simp [hi]
  refine ⟨h.bound_addAlias, ?_, ?_, h.noEmpty.addAlias id d, ?_, ?_⟩
  · intro i
    have h₁ := h.enough i
    have h₂ := hlent i
    have h₃ := hlent' i
    have h₄ := hcard i
    omega
  · intro i hi
    have h₃ := hlent' i
    have h₄ := hcard i
    split at h₃
    · next hcond =>
      obtain ⟨rfl, hmem⟩ := hcond
      rw [if_pos ⟨rfl, hmem⟩] at h₄
      refine ⟨h₃, ?_⟩
      rcases hnamed with hroot | hne
      · rw [rootLink, if_pos hroot]
        omega
      · have hpos := Finset.card_pos.mpr hne
        omega
    · omega
  · exact fun hex => h.named_addAlias hex (hfree hex)
  · intro hex i
    have h₁ := h.balanced hex i
    have h₂ := hlent i
    have h₃ := hlent' i
    have h₄ := hcard i
    omega

/-- The link for a name that was added before. -/
lemma repay (h : Linked exact links ns owed lent) (hid : lent id = 1)
    (hlinks : ∀ i, links' i = links i + if i = id then 1 else 0)
    (hlent : ∀ i, lent i = lent' i + if i = id then 1 else 0) :
    Linked exact links' ns owed lent' := by
  refine ⟨h.bound, ?_, ?_, h.noEmpty, h.named, ?_⟩
  · intro i
    have h₁ := h.enough i
    have h₂ := hlinks i
    have h₃ := hlent i
    omega
  · intro i hi
    have h₁ := h.lentNamed i
    have h₂ := hlent i
    by_cases heq : i = id
    · subst heq
      rw [if_pos rfl] at h₂
      omega
    · rw [if_neg heq] at h₂
      have hpos : 0 < lent i := by omega
      have := h₁ hpos
      omega
  · intro hex i
    have h₁ := h.balanced hex i
    have h₂ := hlinks i
    have h₃ := hlent i
    omega

/-- One more link than needed. -/
lemma spare (h : Linked exact links ns owed lent) (hex : ¬exact)
    (hlinks : ∀ i, links i ≤ links' i) : Linked exact links' ns owed lent := by
  refine ⟨h.bound, ?_, h.lentNamed, h.noEmpty, h.named, fun he => absurd he hex⟩
  intro i
  exact (h.enough i).trans (Nat.add_le_add_right (hlinks i) _)

end Linked

end TypedFuse
