import TypedFuse.Path.Rooted
import TypedFuse.Path.Scene

/-!
# Names that stand for the objects of a tree

Between requests a name is bound to a node only if the inner filesystem holds the object that the
node stands for under this name, in the object that the directory stands for (`RepresentsTree`).
Every path of a node then leads to the object of the node, and the directories of the tree are each
represented by one node.

What a call of the inner filesystem does to the tree and what the adapter then does to the names
keep this together, although neither of them does alone: removing an object and its name, naming
an object once more, and moving an object over another one.
-/

namespace TypedFuse

open Conc NodeTable Relation TypedFuse.Runtime

variable {P : PathFilesystem}

/-- The key that is taken is the next one. -/
lemma Namespace.takeKey_fst {ns ns' : Namespace} {key : ℕ} (h : ns.takeKey = some (key, ns')) :
    key = ns.nextKey := by
  unfold Namespace.takeKey at h
  split at h
  · exact (Prod.mk.inj (Option.some.inj h)).1.symm
  · cases h

/-- The names and the inode table represent the tree of the inner filesystem: every name is bound to
a node that stands for the object with this name. -/
structure RepresentsTree (F : TreeFilesystem P) (v : Scene P) : Prop where
  rooted : Rooted v.ns v.table
  valid : F.Valid v.inner
  root : (F.tree v.inner).root = (F.tree P.init).root
  rootKey : ∀ sl, v.table.slot NodeId.ROOT = some sl → PathNode.key sl.record.payload = 1
  bound : ∀ d i, v.ns.find d = some i → ∃ a x, Stands F v d.parent a ∧ Stands F v i x ∧
    (F.tree v.inner).child a d.name = some x

/-- A placed node still stands for its object after changes that make no node. -/
lemma Stands.origin {F : TreeFilesystem P} {v : Scene P} {i : NodeId} {o : F.Obj}
    (h : Stands F v i o) {g : P.State} {ns' : Namespace} {t' : PathTable P}
    (hrooted : Rooted ns' t')
    (horigin : ∀ i sl', t'.slot i = some sl' →
      ∃ sl, v.table.slot i = some sl ∧ sl'.record = sl.record)
    (hi : ns'.Placed i) : Stands F ⟨g, ns', v.born, t'⟩ i o := by
  obtain ⟨sl, hsl, hborn⟩ := h
  obtain ⟨sl', hsl'⟩ := hrooted.live hi
  obtain ⟨sl₁, hsl₁, hrec⟩ := horigin i sl' hsl'
  obtain rfl := Option.some.inj (hsl.symm.trans hsl₁)
  refine ⟨sl', hsl', ?_⟩
  rw [hrec]
  exact hborn

namespace RepresentsTree

variable {F : TreeFilesystem P} {v : Scene P} {d d' : Dentry} {i j : NodeId} {a x o : F.Obj}

lemma wf (h : RepresentsTree F v) : (F.tree v.inner).WF :=
  F.wf h.valid

/-- The root stands for the root. -/
lemma stands_root (h : RepresentsTree F v) : Stands F v NodeId.ROOT (F.tree v.inner).root := by
  obtain ⟨sl, hsl⟩ := h.rooted.live (Or.inl rfl)
  refine ⟨sl, hsl, ?_⟩
  rw [h.rootKey sl hsl, h.root]
  exact .root

/-- A bound node stands for the object with its name. -/
lemma child (h : RepresentsTree F v) (hd : v.ns.find d = some i) (ha : Stands F v d.parent a)
    (hx : Stands F v i x) : (F.tree v.inner).child a d.name = some x := by
  obtain ⟨a', x', ha', hx', hchild⟩ := h.bound d i hd
  rwa [ha.unique ha', hx.unique hx']

/-- The path of a node leads to the object that the node stands for. -/
lemma resolve (h : RepresentsTree F v) {p : Path} (hp : v.ns.PathOf i p) :
    ∃ o, Stands F v i o ∧ (F.tree v.inner).resolve p = some o := by
  induction hp with
  | root => exact ⟨_, h.stands_root, rfl⟩
  | @step i d p hi hfirst hp ih =>
    obtain ⟨a', ha', hresolve⟩ := ih
    have hd := h.rooted.named d i (Namespace.mem_of_firstAlias hfirst)
    obtain ⟨a, x, ha, hx, hchild⟩ := h.bound d i hd
    refine ⟨x, hx, ?_⟩
    have hname := F.ordinary h.valid hchild
    unfold ObjectTree.resolve at hresolve ⊢
    rw [Path.components_push p hname, ObjectTree.walk_snoc, hresolve, ← hchild, ha.unique ha']
    rfl

lemma resolve_of_stands (h : RepresentsTree F v) {p : Path} (hp : v.ns.pathFor i = some (some p))
    (ho : Stands F v i o) : (F.tree v.inner).resolve p = some o := by
  obtain ⟨o', ho', hresolve⟩ := h.resolve (Namespace.pathOf_of_pathFor hp)
  rw [hresolve, ho.unique ho']

/-- The path of a node may be handed to the inner filesystem for the node. -/
lemma handed (h : RepresentsTree F v) {p : Path} (hp : v.ns.pathFor i = some (some p)) :
    Handed F v p i :=
  ⟨hp, h.resolve (Namespace.pathOf_of_pathFor hp)⟩

/-- A placed node has a path. -/
lemma path (h : RepresentsTree F v) (hi : v.ns.Placed i) : ∃ p, v.ns.pathFor i = some (some p) := by
  rcases hi with rfl | ⟨d, hd⟩
  · exact ⟨_, Namespace.pathFor_eq_some_iff.mpr .root⟩
  · exact h.rooted.path hd

/-- Every node has a path if it is the root or bound, and only then. -/
lemma pathFor_isSome (h : RepresentsTree F v) (i : NodeId) : ∃ r, v.ns.pathFor i = some r ∧
    (r.isSome ↔ i = NodeId.ROOT ∨ ∃ d, v.ns.find d = some i) := by
  obtain ⟨r, hr⟩ := Namespace.pathFor_isSome h.rooted.named h.rooted.loopless i
  refine ⟨r, hr, ?_⟩
  constructor
  · intro hsome
    obtain ⟨p, rfl⟩ := Option.isSome_iff_exists.mp hsome
    exact Namespace.Placed.of_pathFor h.rooted.named hr
  · intro hi
    obtain ⟨p, hp⟩ := h.path hi
    obtain rfl := Option.some.inj (hr.symm.trans hp)
    rfl

/-- A placed node stands for an object in the tree. -/
lemma reached (h : RepresentsTree F v) (hi : v.ns.Placed i) (ho : Stands F v i o) :
    ∃ names, (F.tree v.inner).walk names = some o := by
  obtain ⟨p, hp⟩ := h.path hi
  exact ⟨p.components, h.resolve_of_stands hp ho⟩

/-- One node represents a directory. -/
lemma inj (h : RepresentsTree F v) (hi : v.ns.Placed i) (hj : v.ns.Placed j) (hio : Stands F v i o)
    (hjo : Stands F v j o) (hdir : (F.tree v.inner).isDir o) : i = j := by
  -- the induction is on a walk to the directory: its own directory is represented by one node
  obtain ⟨names, hwalk⟩ := h.reached hi hio
  induction names using List.reverseRecOn generalizing i j o with
  | nil =>
    obtain rfl : (F.tree v.inner).root = o := Option.some.inj hwalk
    have hroot : ∀ {i}, v.ns.Placed i → Stands F v i (F.tree v.inner).root →
        i = NodeId.ROOT := by
      rintro i (hi | ⟨d, hd⟩) hio
      · exact hi
      · obtain ⟨a, x, ha, hx, hchild⟩ := h.bound d i hd
        obtain ⟨names, hnames⟩ := h.reached (h.rooted.placed d i hd) ha
        rw [hx.unique hio] at hchild
        exact absurd hchild (h.wf.child_ne_root hnames)
    rw [hroot hi hio, hroot hj hjo]
  | append_singleton names name ih =>
    rw [ObjectTree.walk_snoc] at hwalk
    obtain ⟨a, ha, ho⟩ := Option.bind_eq_some_iff.mp hwalk
    have hparent : ∀ {i}, v.ns.Placed i → Stands F v i o →
        ∃ d, v.ns.find d = some i ∧ Stands F v d.parent a ∧ d.name = name := by
      rintro i (rfl | ⟨d, hd⟩) hio
      · rw [hio.unique h.stands_root] at ho
        exact absurd ho (h.wf.child_ne_root ha)
      · obtain ⟨a', x, ha', hx, hchild⟩ := h.bound d i hd
        rw [hx.unique hio] at hchild
        obtain ⟨rfl, hname⟩ := h.wf.single hdir hchild ho
        exact ⟨d, hd, ha', hname⟩
    obtain ⟨d, hd, hda, hname⟩ := hparent hi hio
    obtain ⟨d', hd', hda', hname'⟩ := hparent hj hjo
    have hsame : d.parent = d'.parent :=
      ih (h.rooted.placed d i hd) (h.rooted.placed d' j hd') hda hda' (h.wf.dirs ho) ha
    have heq : d = d' := by
      cases d
      cases d'
      exact congrArg₂ _ hsame (hname.trans hname'.symm)
    rw [heq, hd'] at hd
    exact (Option.some.inj hd).symm

/-- Names in one directory that differ differ in the tree. -/
lemma name_ne (h : RepresentsTree F v) (hd : v.ns.Placed d.parent) (hd' : v.ns.Placed d'.parent)
    (ha : Stands F v d.parent a) (ha' : Stands F v d'.parent o)
    (hdir : (F.tree v.inner).isDir o) (hne : d ≠ d') : ¬ (a = o ∧ d.name = d'.name) := by
  rintro ⟨rfl, hname⟩
  refine hne ?_
  have hparent := h.inj hd hd' ha ha' hdir
  cases d
  cases d'
  exact congrArg₂ _ hparent hname

/-- Nothing is bound in a node that stands for an object without entries. -/
lemma unbound (h : RepresentsTree F v) (hx : Stands F v i x)
    (hempty : ∀ m, (F.tree v.inner).child x m = none) (hd : v.ns.find d = some j) :
    d.parent ≠ i := by
  rintro rfl
  obtain ⟨a, y, ha, _, hchild⟩ := h.bound d j hd
  rw [ha.unique hx, hempty] at hchild
  cases hchild

/-- What is bound below a node stands for an object below that of the node. -/
lemma below (h : RepresentsTree F v) {ns' : Namespace} {T : ObjectTree F.Obj Name}
    (hfind : ∀ d i, ns'.find d = some i → v.ns.find d = some i)
    (hchild : ∀ d i a x, ns'.find d = some i → Stands F v d.parent a → Stands F v i x →
      T.child a d.name = some x)
    (hreach : ReflTransGen ns'.Below i j) (hx : Stands F v i x) (ho : Stands F v j o) :
    ReflTransGen T.Below x o := by
  induction hreach generalizing o with
  | refl =>
    rw [hx.unique ho]
  | @tail b c _ hbc ih =>
    obtain ⟨_, name, hname⟩ := hbc
    obtain ⟨a, y, ha, hy, _⟩ := h.bound _ _ (hfind _ _ hname)
    rw [← hy.unique ho]
    exact (ih ha).tail ⟨name, hchild _ _ a y hname ha hy⟩

/-- Changes that make no node: it is enough that names are bound to what has the names. -/
lemma congr (h : RepresentsTree F v) {g : P.State} {ns' : Namespace} {t' : PathTable P}
    (hrooted : Rooted ns' t')
    (horigin : ∀ i sl', t'.slot i = some sl' →
      ∃ sl, v.table.slot i = some sl ∧ sl'.record = sl.record)
    (hvalid : F.Valid g) (hroot : (F.tree g).root = (F.tree v.inner).root)
    (hbound : ∀ d i, ns'.find d = some i → ∃ a x, Stands F v d.parent a ∧ Stands F v i x ∧
      (F.tree g).child a d.name = some x) : RepresentsTree F ⟨g, ns', v.born, t'⟩ := by
  refine ⟨hrooted, hvalid, hroot.trans h.root, ?_, ?_⟩
  · intro sl' hsl'
    obtain ⟨sl, hsl, hrec⟩ := horigin NodeId.ROOT sl' hsl'
    rw [hrec]
    exact h.rootKey sl hsl
  · intro d i hd
    obtain ⟨a, x, ha, hx, hchild⟩ := hbound d i hd
    exact ⟨a, x, ha.origin hrooted horigin (hrooted.placed d i hd),
      hx.origin hrooted horigin (Or.inr ⟨d, hd⟩), hchild⟩

/-- Sections that change only references which the names do not stand for. -/
lemma calm (h : RepresentsTree F v) {t' : PathTable P} (hwf : t'.WF) (hcalm : Calm v.table t') :
    RepresentsTree F { v with table := t' } := by
  refine h.congr ?_ ?_ h.valid rfl h.bound
  · exact .of_backed (h.rooted.backed.calm hwf hcalm) h.rooted.placed h.rooted.loopless
  · intro i sl' hsl'
    obtain ⟨sl, hsl, hrec, _⟩ := hcalm.origin i sl' hsl'
    exact ⟨sl, hsl, hrec⟩

/-- A call of the inner filesystem that takes no name away. -/
lemma grown (h : RepresentsTree F v) {g : P.State} (hvalid : F.Valid g)
    (hroot : (F.tree g).root = (F.tree v.inner).root)
    (hchild : ∀ a m x, (F.tree v.inner).child a m = some x → (F.tree g).child a m = some x) :
    RepresentsTree F { v with inner := g } := by
  refine h.congr h.rooted (fun i sl hsl => ⟨sl, hsl, rfl⟩) hvalid hroot ?_
  intro d i hd
  obtain ⟨a, x, ha, hx, hold⟩ := h.bound d i hd
  exact ⟨a, x, ha, hx, hchild a d.name x hold⟩

/-- A call that leaves the tree alone. -/
lemma answered (h : RepresentsTree F v) {g : P.State} (hvalid : F.Valid g)
    (htree : F.tree g = F.tree v.inner) : RepresentsTree F { v with inner := g } := by
  refine h.grown hvalid (by rw [htree]) ?_
  rw [htree]
  exact fun _ _ _ hold => hold

/-- A call that makes an object in the directory with a path. -/
lemma makes (h : RepresentsTree F v) {g : P.State} {p : Path} {name : Name} {dir : Prop}
    (hp : v.ns.pathFor i = some (some p)) (hvalid : F.Valid g)
    (hmakes : (F.tree v.inner).Makes p name dir (F.tree g)) :
    RepresentsTree F { v with inner := g } ∧
      ∃ a x, Stands F v i a ∧ (F.tree g).child a name = some x := by
  obtain ⟨a, x, ha, hfree, _, htree⟩ := hmakes
  obtain ⟨o, ho, hresolve⟩ := h.resolve (Namespace.pathOf_of_pathFor hp)
  obtain rfl := Option.some.inj (hresolve.symm.trans ha)
  refine ⟨h.grown hvalid (by rw [htree]; rfl) ?_, o, x, ho, ?_⟩
  · intro b m y hold
    rw [htree, ObjectTree.child_make_of_ne, hold]
    rintro ⟨rfl, rfl⟩
    rw [hfree] at hold
    cases hold
  · rw [htree]
    exact ObjectTree.child_make_self

/-! ### Making a node -/

/-- The node that is made for a free name stands for the object with the name. -/
lemma made (h : RepresentsTree F v) (hfree : v.ns.find d = none) (hp : v.ns.Placed d.parent)
    (ha : Stands F v d.parent a) (hx : (F.tree v.inner).child a d.name = some x) {key : ℕ}
    {ns₁ : Namespace} {id : NodeId} {t' : PathTable P} (hkey : v.ns.takeKey = some (key, ns₁))
    (hins : v.table.insert (⟨key⟩ : PathNode) d.parent = some (id, t')) :
    RepresentsTree F ⟨v.inner, ns₁.record key id d,
        v.born.insert key ⟨v.inner, ns₁.pathFor d.parent, d.name⟩, t'⟩ ∧
      ∀ i o, Stands F v i o → Stands F ⟨v.inner, ns₁.record key id d,
        v.born.insert key ⟨v.inner, ns₁.pathFor d.parent, d.name⟩, t'⟩ i o := by
  obtain ⟨gen, hslot⟩ := slot_insert hins
  have hdead := h.rooted.wf.insert_dead hins
  obtain ⟨q, hq⟩ := h.path hp
  have hnext := Namespace.takeKey_fst hkey
  have hpath : ns₁.pathFor d.parent = some (some q) := by
    have hq' : v.ns.PathOf d.parent q := Namespace.pathOf_of_pathFor hq
    rw [Namespace.takeKey_eq hkey]
    exact Namespace.pathFor_eq_some_iff.mpr hq'
  have hother : ∀ {i sl}, v.table.slot i = some sl → PathNode.key sl.record.payload ≠ key := by
    intro i sl hsl
    have hlt := h.rooted.keyed.slotLt i sl hsl
    rw [hnext]
    exact Nat.ne_of_lt hlt
  have hone : key ≠ 1 := by
    obtain ⟨sl, hsl⟩ := h.rooted.live (Or.inl rfl)
    rw [← h.rootKey sl hsl]
    exact (hother hsl).symm
  generalize hv' : (⟨v.inner, ns₁.record key id d,
    v.born.insert key ⟨v.inner, ns₁.pathFor d.parent, d.name⟩, t'⟩ : Scene P) = v'
  have hstands : ∀ {i o}, Stands F v i o → Stands F v' i o := by
    rintro i o ⟨sl, hsl, hborn⟩
    subst hv'
    refine ⟨sl, ?_, hborn.insert _ (hother hsl)⟩
    rw [hslot, if_neg, hsl]
    rintro rfl
    rw [hdead] at hsl
    cases hsl
  have hnew : Stands F v' id x := by
    subst hv'
    refine ⟨_, (hslot id).trans (if_pos rfl), ?_⟩
    have hlookup := BTreeMap.lookup_insert_ite v.born key key
      ⟨v.inner, ns₁.pathFor d.parent, d.name⟩
    rw [if_pos rfl] at hlookup
    exact .made hone hlookup hpath (h.resolve_of_stands hq ha) hx
  have hroot : v'.table.slot NodeId.ROOT = v.table.slot NodeId.ROOT := by
    subst hv'
    refine (hslot NodeId.ROOT).trans (if_neg ?_)
    rintro rfl
    obtain ⟨sl, hsl⟩ := h.rooted.live (Or.inl rfl)
    rw [hdead] at hsl
    cases hsl
  have hfind : ∀ d', v'.ns.find d' = if d' = d then some id else v.ns.find d' := by
    subst hv'
    exact Namespace.find_recorded hkey
  have hinner : v'.inner = v.inner := by
    subst hv'
    rfl
  refine ⟨⟨?_, ?_, ?_, ?_, ?_⟩, fun _ _ => hstands⟩
  · subst hv'
    exact h.rooted.made hfree hp hkey hins
  · rw [hinner]
    exact h.valid
  · rw [hinner]
    exact h.root
  · rw [hroot]
    exact h.rootKey
  · intro d' i hd'
    rw [hinner]
    rw [hfind] at hd'
    split at hd'
    · next heq =>
      rw [heq, ← Option.some.inj hd']
      exact ⟨a, x, hstands ha, hnew, hx⟩
    · obtain ⟨a', x', ha', hx', hchild⟩ := h.bound d' i hd'
      exact ⟨a', x', hstands ha', hstands hx', hchild⟩

/-! ### Changing the tree and the names -/

/-- An object gets one more name, and so does its node. -/
lemma linked (h : RepresentsTree F v) {g : P.State} {t' : PathTable P} (hi : v.ns.Placed i)
    (hp : v.ns.Placed d.parent) (hx : Stands F v i x) (ha : Stands F v d.parent a)
    (hvalid : F.Valid g) (hdir : ¬ (F.tree v.inner).isDir x)
    (hfree : (F.tree v.inner).child a d.name = none)
    (htree : F.tree g = (F.tree v.inner).set a d.name (some x))
    (hadd : v.table.addLink i = some t') : RepresentsTree F ⟨g, v.ns.addAlias i d, v.born, t'⟩ := by
  have hnew : (F.tree g).child a d.name = some x := by
    rw [htree]
    exact ObjectTree.child_set_self
  have hadir : (F.tree v.inner).isDir a := by
    have hdirs := (F.wf hvalid).dirs hnew
    rwa [htree] at hdirs
  have hbind : v.ns.CanBind i d := by
    refine ⟨?_, Or.inr ?_⟩
    · by_contra hne
      obtain ⟨j, hj⟩ := Option.ne_none_iff_exists'.mp hne
      obtain ⟨a', y, ha', _, hchild⟩ := h.bound d j hj
      rw [ha'.unique ha, hfree] at hchild
      cases hchild
    · intro hreach
      have hbelow := h.below (T := F.tree v.inner) (fun _ _ hd => hd)
        (fun _ _ _ _ hd ha hx => h.child hd ha hx) hreach hx ha
      rcases ReflTransGen.cases_head hbelow with rfl | ⟨y, ⟨m, hm⟩, _⟩
      · exact hdir hadir
      · exact hdir (h.wf.dirs hm)
  refine h.congr (h.rooted.bound hi hp hbind hadd) (fun _ _ => slot_linked hadd) hvalid ?_ ?_
  · rw [htree]
    rfl
  · intro d' j hd'
    rw [Namespace.find_addAlias] at hd'
    split at hd'
    · next heq =>
      rw [heq, ← Option.some.inj hd']
      exact ⟨a, x, ha, hx, hnew⟩
    · next hne =>
      obtain ⟨a', y, ha', hy, hchild⟩ := h.bound d' j hd'
      refine ⟨a', y, ha', hy, ?_⟩
      rw [htree, ObjectTree.child_set_of_ne, hchild]
      exact h.name_ne (h.rooted.placed d' j hd') hp ha' ha hadir hne

/-- An object without entries loses a name, and so does its node if it is known. -/
lemma removed (h : RepresentsTree F v) {g : P.State} (hp : v.ns.Placed d.parent)
    (ha : Stands F v d.parent a) (hvalid : F.Valid g)
    (hchild : (F.tree v.inner).child a d.name = some x)
    (hempty : ∀ m, (F.tree v.inner).child x m = none)
    (htree : F.tree g = (F.tree v.inner).set a d.name none) :
    RepresentsTree F ⟨g, (v.ns.remove d).2, v.born,
      (v.ns.find d).elim v.table v.table.removeLink⟩ := by
  have hkeep : ∀ d' j, v.ns.find d' = some j → d' ≠ d → ∃ a' y, Stands F v d'.parent a' ∧
      Stands F v j y ∧ (F.tree g).child a' d'.name = some y := by
    intro d' j hd' hne
    obtain ⟨a', y, ha', hy, hold⟩ := h.bound d' j hd'
    refine ⟨a', y, ha', hy, ?_⟩
    rw [htree, ObjectTree.child_set_of_ne, hold]
    exact h.name_ne (h.rooted.placed d' j hd') hp ha' ha (h.wf.dirs hchild) hne
  have hroot : (F.tree g).root = (F.tree v.inner).root := by
    rw [htree]
    rfl
  cases hfind : v.ns.find d with
  | none =>
    rw [Namespace.remove_of_unbound hfind]
    refine h.congr h.rooted (fun i sl hsl => ⟨sl, hsl, rfl⟩) hvalid hroot ?_
    intro d' j hd'
    refine hkeep d' j hd' ?_
    rintro rfl
    rw [hfind] at hd'
    cases hd'
  | some i =>
    have hx : Stands F v i x := by
      obtain ⟨a', y, ha', hy, hold⟩ := h.bound d i hfind
      rw [ha'.unique ha, hchild] at hold
      rwa [Option.some.inj hold]
    have hback : ∀ d' j, (v.ns.remove d).2.find d' = some j →
        v.ns.find d' = some j ∧ d' ≠ d := by
      intro d' j hd'
      rw [Namespace.find_remove] at hd'
      split at hd'
      · cases hd'
      · next hne => exact ⟨hd', hne⟩
    have hunbind : (v.ns.remove d).2.CanUnbind none i := by
      refine Or.inr ?_
      intro d' j hd' hparent
      exact absurd hparent (h.unbound hx hempty (hback d' j hd').1)
    refine h.congr (h.rooted.removed hfind hunbind) (fun _ _ => slot_removed) hvalid hroot ?_
    intro d' j hd'
    obtain ⟨hold, hne⟩ := hback d' j hd'
    exact hkeep d' j hold hne

/-- An object is moved, over one without entries if there is one, and so is the name of its node. -/
lemma renamed (h : RepresentsTree F v) {g : P.State} {ns' : Namespace} {t' : PathTable P}
    {old new : Dentry} {source : NodeId} {a' : F.Obj} (hold : v.ns.find old = some source)
    (hp : v.ns.Placed new.parent) (ha : Stands F v old.parent a) (ha' : Stands F v new.parent a')
    (hvalid : F.Valid g) (hchild : (F.tree v.inner).child a old.name = some x)
    (hrename : (F.tree v.inner).Renames a old.name a' new.name x (F.tree g))
    (hmoved : Moved v.ns v.table old new ns' t') : RepresentsTree F ⟨g, ns', v.born, t'⟩ := by
  have hsource : Stands F v source x := by
    obtain ⟨b, y, hb, hy, hfirst⟩ := h.bound old source hold
    rw [hb.unique ha, hchild] at hfirst
    rwa [Option.some.inj hfirst]
  have hpold := h.rooted.placed old source hold
  cases hmoved with
  | unknown hnone =>
    rw [hold] at hnone
    cases hnone
  | @same source' hold' hsame =>
    obtain rfl := Option.some.inj (hold.symm.trans hold')
    refine h.answered hvalid ?_
    rcases hrename with ⟨_, htree⟩ | ⟨hne, _⟩
    · exact htree
    · exact absurd (h.child hsame ha' hsource) hne
  | @moved source' hold' hnew =>
    obtain rfl := Option.some.inj (hold.symm.trans hold')
    have hne : old ≠ new := by
      rintro rfl
      exact hnew hold
    have hheld : (F.tree g).child a' new.name = some x := by
      rcases hrename with ⟨hsame, htree⟩ | ⟨_, _, htree⟩
      · rw [htree, hsame]
      · rw [htree]
        exact ObjectTree.child_move_self
    have hadir : (F.tree v.inner).isDir a' := by
      have hdirs := (F.wf hvalid).dirs hheld
      rcases hrename with ⟨_, htree⟩ | ⟨_, _, htree⟩
      · rwa [htree] at hdirs
      · rwa [htree] at hdirs
    have hroot : (F.tree g).root = (F.tree v.inner).root := by
      rcases hrename with ⟨_, htree⟩ | ⟨_, _, htree⟩
      · rw [htree]
      · rw [htree]
        rfl
    -- the other names stay where they are
    have hstay : ∀ d i b y, v.ns.find d = some i → d ≠ old → d ≠ new → Stands F v d.parent b →
        Stands F v i y → (F.tree g).child b d.name = some y := by
      intro d i b y hd hdold hdnew hb hy
      have hbefore := h.child hd hb hy
      have hpd := h.rooted.placed d i hd
      rcases hrename with ⟨_, htree⟩ | ⟨_, _, htree⟩
      · rw [htree, hbefore]
      · rw [htree, ObjectTree.child_move_of_ne, hbefore]
        · exact h.name_ne hpd hpold hb ha (h.wf.dirs hchild) hdold
        · exact h.name_ne hpd hp hb ha' hadir hdnew
    have hback : ∀ d i, ((v.ns.remove new).2.remove old).2.find d = some i →
        v.ns.find d = some i ∧ d ≠ old ∧ d ≠ new := by
      intro d i hd
      rw [Namespace.find_remove] at hd
      split at hd
      · cases hd
      · next hdold =>
        rw [Namespace.find_remove] at hd
        split at hd
        · cases hd
        · next hdnew => exact ⟨hd, hdold, hdnew⟩
    have hreplaced : ∀ target, v.ns.find new = some target →
        (v.ns.remove new).2.CanUnbind (some old) target := by
      intro target htarget
      obtain ⟨b, y, hb, hy, hover⟩ := h.bound new target htarget
      obtain rfl := hb.unique ha'
      have hempty : ∀ m, (F.tree v.inner).child y m = none := by
        by_cases hydir : (F.tree v.inner).isDir y
        · rcases hrename with ⟨hsame, _⟩ | ⟨_, hempty, _⟩
          · -- a directory has one name
            rw [hsame] at hover
            obtain rfl := Option.some.inj hover
            obtain ⟨rfl, hname⟩ := h.wf.single hydir hchild hsame
            exact absurd ⟨rfl, hname⟩ (h.name_ne hpold hp ha ha' hadir hne)
          · exact hempty y hover hydir
        · exact h.wf.child_eq_none hydir
      refine Or.inr ?_
      intro d i hd hparent
      rw [Namespace.find_remove] at hd
      split at hd
      · cases hd
      · exact absurd hparent (h.unbound hy hempty hd)
    have hbind : ((v.ns.remove new).2.remove old).2.CanBind source new := by
      refine ⟨?_, Or.inr ?_⟩
      · rw [Namespace.find_remove, if_neg hne.symm, Namespace.find_remove, if_pos rfl]
      · -- the directory would be moved below itself
        intro hreach
        have hbelow := h.below (T := F.tree g) (fun d i hd => (hback d i hd).1)
          (fun d i b y hd hb hy => hstay d i b y (hback d i hd).1 (hback d i hd).2.1
            (hback d i hd).2.2 hb hy) hreach hsource ha'
        exact (F.wf hvalid).acyclic x (TransGen.tail' hbelow ⟨_, hheld⟩)
    refine h.congr (h.rooted.moved hold hnew hp hreplaced hbind) (fun _ _ => slot_moved) hvalid
      hroot ?_
    intro d i hd
    rw [Namespace.find_move] at hd
    split at hd
    · next heq =>
      rw [heq, ← Option.some.inj hd]
      exact ⟨a', x, ha', hsource, hheld⟩
    · next hdnew =>
      split at hd
      · cases hd
      · next hdold =>
        obtain ⟨b, y, hb, hy, _⟩ := h.bound d i hd
        exact ⟨b, y, hb, hy, hstay d i b y hd hdold hdnew hb hy⟩

end RepresentsTree

end TypedFuse
