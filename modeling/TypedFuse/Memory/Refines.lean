import TypedFuse.Memory.Steps

/-!
# The callbacks change the tree

A view represents a tree if the nodes have the links of the tree and their cells show its kinds,
entries and link counts.  Every callback that changes names takes a view that represents a tree to
one that represents the tree after the request, in the sense of `Tree.Step`, or fails as that says
and leaves the view alone.
-/

namespace TypedFuse

open Conc Conc.Service NodeTable TypedFuse.Runtime

namespace Tree

open MemoryFs (Shape)

variable (T : Tree)

/-- The entry that a directory has under a name. -/
def lookup (id : NodeId) (name : Name) : Option MemoryFs.DirEntry :=
  (T.find ⟨id, name⟩).map fun i => ⟨i, T.kind i⟩

/-- What the cell of a node shows. -/
def shape (id : NodeId) : Shape where
  kind := T.kind id
  entries := if T.kind id = .directory then some (T.lookup id) else none
  nlink := T.nlink id

variable {T}

lemma lookup_bind (d : Dentry) (i x : NodeId) :
    (T.bind d i).lookup x =
      if x = d.parent then Function.update (T.lookup x) d.name (some ⟨i, T.kind i⟩)
      else T.lookup x := by
  funext name
  have hfind : (T.bind d i).lookup x name =
      (if (⟨x, name⟩ : Dentry) = d then some i else T.find ⟨x, name⟩).map
        fun i => (⟨i, T.kind i⟩ : MemoryFs.DirEntry) := by
    rw [← find_bind]
    rfl
  rw [hfind]
  obtain ⟨parent, n⟩ := d
  by_cases hx : x = parent
  · subst hx
    rw [if_pos rfl, Function.update_apply]
    by_cases hn : name = n
    · rw [if_pos hn, if_pos (by rw [hn])]
      rfl
    · rw [if_neg hn, if_neg fun h => hn (Dentry.mk.inj h).2]
      rfl
  · rw [if_neg hx, if_neg fun h => hx (Dentry.mk.inj h).1]
    rfl

lemma lookup_unbind (d : Dentry) (x : NodeId) :
    (T.unbind d).lookup x =
      if x = d.parent then Function.update (T.lookup x) d.name none else T.lookup x := by
  funext name
  have hfind : (T.unbind d).lookup x name =
      (if (⟨x, name⟩ : Dentry) = d then none else T.find ⟨x, name⟩).map
        fun i => (⟨i, T.kind i⟩ : MemoryFs.DirEntry) := by
    rw [← find_unbind]
    rfl
  rw [hfind]
  obtain ⟨parent, n⟩ := d
  by_cases hx : x = parent
  · subst hx
    rw [if_pos rfl, Function.update_apply]
    by_cases hn : name = n
    · rw [if_pos hn, if_pos (by rw [hn])]
      rfl
    · rw [if_neg hn, if_neg fun h => hn (Dentry.mk.inj h).2]
      rfl
  · rw [if_neg hx, if_neg fun h => hx (Dentry.mk.inj h).1]
    rfl

/-- The kind of a node without a name is not seen in any directory. -/
lemma lookup_setKind {id : NodeId} (h : T.links id = 0) (k : FileKind) (x : NodeId) :
    (T.setKind id k).lookup x = T.lookup x := by
  funext name
  have hfind : (T.setKind id k).find ⟨x, name⟩ = T.find ⟨x, name⟩ := rfl
  unfold lookup
  rw [hfind]
  cases hx : T.find ⟨x, name⟩ with
  | none => rfl
  | some i =>
    have hne : i ≠ id := by
      rintro rfl
      exact find_ne_of_links h _ hx
    rw [Option.map_some, Option.map_some, kind_setKind, if_neg hne]

/-- A node without links has no entries. -/
lemma WF.lookup_eq_none (hT : T.WF) {id : NodeId} (h : T.links id = 0) (name : Name) :
    T.lookup id name = none := by
  unfold lookup
  cases hx : T.find ⟨id, name⟩ with
  | none => rfl
  | some i =>
    have hpos := (hT.parent hx).2
    exact absurd h hpos.ne'

lemma WF.subdirs_eq_zero (hT : T.WF) {id : NodeId} (h : T.links id = 0) : T.subdirs id = 0 := by
  unfold subdirs
  refine BTreeMap.countWhere_eq_zero_iff.mpr ?_
  intro d v hv
  refine decide_eq_false ?_
  rintro ⟨rfl, _⟩
  exact absurd h (hT.parent hv).2.ne'

/-- The shape of a new node without entries. -/
def freshShape (k : FileKind) : Shape where
  kind := k
  entries := if k = .directory then some fun _ => none else none
  nlink := if k = .directory then 2 else 1

/-- What nodes show after a new node was made. -/
lemma shape_make (hT : T.WF) {d : Dentry} (hfree : T.find d = none) {id : NodeId}
    (hid : T.links id = 0) (hdir : 0 < T.links d.parent) (hparent : T.kind d.parent = .directory)
    (k : FileKind) (x : NodeId) :
    (T.make d k id).shape x =
      if x = id then freshShape k
      else if x = d.parent then
        (MemoryFs.Update.linkInto d.name ⟨id, k⟩ .epoch).onShape (T.shape x)
      else T.shape x := by
  have hfree' : (T.setKind id k).find d = none := hfree
  have hlinks : (T.make d k id).links x = T.links x + if x = id then 1 else 0 :=
    links_bind hfree' id x
  have hsubdirs : (T.make d k id).subdirs x =
      T.subdirs x + if x = d.parent ∧ k = .directory then 1 else 0 := by
    have hbind := subdirs_bind hfree' id x
    rw [subdirs_setKind hid, kind_setKind, if_pos rfl] at hbind
    exact hbind
  have hlookup : (T.make d k id).lookup x =
      if x = d.parent then Function.update (T.lookup x) d.name
        (some ⟨id, k⟩) else T.lookup x := by
    have hbind := lookup_bind (T := T.setKind id k) d id x
    rw [lookup_setKind hid, kind_setKind, if_pos rfl] at hbind
    exact hbind
  have hkind : (T.make d k id).kind x = if x = id then k else T.kind x := kind_setKind id k x
  have hne : d.parent ≠ id := by
    intro heq
    rw [heq, hid] at hdir
    exact lt_irrefl 0 hdir
  by_cases hx : x = id
  · subst hx
    have hnone : T.lookup x = fun _ => none := funext (hT.lookup_eq_none hid)
    rw [if_pos rfl]
    unfold shape nlink freshShape
    rw [hkind, hlinks, hsubdirs, hlookup, if_neg hne.symm, hid, hT.subdirs_eq_zero hid, hnone]
    by_cases hk : k = .directory
    · simp [hk, hne.symm]
    · simp [hk]
  · rw [if_neg hx]
    unfold shape nlink
    rw [hkind, hlinks, hsubdirs, hlookup, if_neg hx, if_neg hx]
    by_cases hp : x = d.parent
    · subst hp
      unfold MemoryFs.Update.onShape
      by_cases hk : k = .directory
      · simp [hparent, hk, Nat.add_assoc]
      · simp [hparent, hk]
    · simp [hp]

/-- What nodes show after a node that is no directory got one more name. -/
lemma shape_bind {d : Dentry} (hfree : T.find d = none) {id : NodeId}
    (hkind : T.kind id ≠ .directory) (hparent : T.kind d.parent = .directory) (x : NodeId) :
    (T.bind d id).shape x =
      if x = id then { T.shape x with nlink := (T.shape x).nlink + 1 }
      else if x = d.parent then
        (MemoryFs.Update.linkInto d.name ⟨id, T.kind id⟩ .epoch).onShape (T.shape x)
      else T.shape x := by
  have hkinds : (T.bind d id).kind = T.kind := rfl
  unfold shape nlink
  rw [hkinds, links_bind hfree, subdirs_bind hfree, lookup_bind]
  by_cases hx : x = id
  · have hne : x ≠ d.parent := by
      rintro rfl
      exact hkind (hx ▸ hparent)
    subst hx
    simp [hkind]
  · by_cases hp : x = d.parent
    · subst hp
      unfold MemoryFs.Update.onShape
      simp [hx, hparent, hkind]
    · simp [hx, hp]

/-- What nodes show after a node that is no directory lost a name. -/
lemma shape_unlink {d : Dentry} {id : NodeId} (hfind : T.find d = some id)
    (hkind : T.kind id ≠ .directory) (hparent : T.kind d.parent = .directory) (x : NodeId) :
    (T.unbind d).shape x =
      if x = id then { T.shape x with nlink := (T.shape x).nlink - 1 }
      else if x = d.parent then (MemoryFs.Update.removeEntry d.name .epoch).onShape (T.shape x)
      else T.shape x := by
  have hkinds : (T.unbind d).kind = T.kind := rfl
  have hlinks := links_unbind hfind x
  have hsubdirs := subdirs_unbind hfind x
  rw [if_neg fun h => hkind h.2, Nat.add_zero] at hsubdirs
  unfold shape nlink
  rw [hkinds, hsubdirs, lookup_unbind]
  by_cases hx : x = id
  · have hne : x ≠ d.parent := by
      rintro rfl
      exact hkind (hx ▸ hparent)
    rw [if_pos hx] at hlinks
    subst hx
    simp [hkind, ← hlinks]
  · rw [if_neg hx, Nat.add_zero] at hlinks
    rw [hlinks]
    by_cases hp : x = d.parent
    · subst hp
      unfold MemoryFs.Update.onShape
      simp [hx, hparent]
    · simp [hx, hp]

/-- What the other nodes show after a directory lost its name. -/
lemma shape_rmdir {d : Dentry} {id : NodeId} (hfind : T.find d = some id)
    (hkind : T.kind id = .directory) (hparent : T.kind d.parent = .directory) {x : NodeId}
    (hx : x ≠ id) :
    (T.unbind d).shape x =
      if x = d.parent then (MemoryFs.Update.removeSubdir d.name .epoch).onShape (T.shape x)
      else T.shape x := by
  have hkinds : (T.unbind d).kind = T.kind := rfl
  have hlinks := links_unbind hfind x
  have hsubdirs := subdirs_unbind hfind x
  rw [if_neg hx, Nat.add_zero] at hlinks
  unfold shape nlink
  rw [hkinds, hlinks, lookup_unbind]
  by_cases hp : x = d.parent
  · rw [if_pos ⟨hp, hkind⟩] at hsubdirs
    subst hp
    unfold MemoryFs.Update.onShape
    simp only [hparent, if_true, Option.map_some, ← hsubdirs]
    rfl
  · rw [if_neg fun h => hp h.1, Nat.add_zero] at hsubdirs
    simp only [hp, if_false, hsubdirs]

/-- The name that was linked. -/
lemma find_of_link {T' : Tree} {id : NodeId} {d : Dentry} (h : T.link id d = .ok T') :
    T'.find d = some id := by
  unfold link at h
  split at h
  · cases h
  · cases hnew : T.checkNew d with
    | error e =>
      rw [hnew] at h
      cases h
    | ok _ =>
      rw [hnew] at h
      obtain rfl := Except.ok.inj h
      rw [find_bind, if_pos rfl]

/-- A node that was made has a link. -/
lemma links_make_pos (d : Dentry) (k : FileKind) (id : NodeId) : 0 < (T.make d k id).links id := by
  refine links_pos (d := d) ?_
  have hfind : (T.make d k id).find d = if d = d then some id else T.find d :=
    find_bind (T := T.setKind id k) d d id
  rw [hfind, if_pos rfl]

end Tree

namespace MemoryFs

/-! ## What callbacks find -/

/-- The view represents a tree. -/
structure Represents (w : View) (T : Tree) : Prop where
  holds : w.Holds T.links T.shape
  wf : T.WF

/-- An error number is a failure. -/
def lift {α : Type} : Except Errno α → Fallible α
  | .ok a => .ok a
  | .error e => fail e

variable {uid gid : ℕ} {made : SystemTime} {n : ℕ} {w : View} {T : Tree} {α β : Type}

/-- A directory and what it contains, or another node. -/
lemma content_cases {d : NodeData} {id : NodeId} (hd : d.shape = T.shape id) :
    (∃ entries, d.content = .dir entries ∧ T.kind id = .directory ∧
      ∀ name, entries.lookup name = T.lookup id name) ∨
    (T.kind id ≠ .directory ∧ ∀ entries, d.content ≠ .dir entries) := by
  have hentries : d.shape.entries = if T.kind id = .directory then some (T.lookup id) else none :=
    congrArg Shape.entries hd
  unfold NodeData.shape at hentries
  dsimp only at hentries
  split at hentries
  · next entries hc =>
    split at hentries
    · next hk => exact Or.inl ⟨entries, hc, hk, congrFun (Option.some.inj hentries)⟩
    · cases hentries
  · next hc =>
    split at hentries
    · cases hentries
    · next hk => exact Or.inr ⟨hk, hc⟩

/-- An empty directory. -/
lemma empty_iff {id : NodeId} {entries : BTreeMap Name DirEntry}
    (hlookup : ∀ name, entries.lookup name = T.lookup id name) :
    entries = ∅ ↔ T.size id = 0 := by
  rw [Tree.size_eq_zero_iff]
  constructor
  · rintro rfl name
    have hnone := hlookup name
    rw [Finmap.lookup_empty] at hnone
    exact Option.map_eq_none_iff.mp hnone.symm
  · intro hnone
    refine Finmap.ext_lookup fun name => ?_
    rw [hlookup, Finmap.lookup_empty]
    exact Option.map_eq_none_iff.mpr (hnone name)

namespace Does

lemma checkNewEntry (h : Represents w T) {parent : NodeId} (hp : 0 < T.links parent) (name : Name) :
    Does uid gid made n w (checkNewEntry parent name) fun r w' =>
      w' = w ∧ r = lift (T.checkNew ⟨parent, name⟩) := by
  refine (readNode h.holds hp).bind ?_
  rintro r _ ⟨rfl, d, rfl, hd⟩
  unfold Tree.checkNew
  rcases content_cases hd with ⟨entries, hc, hk, hlookup⟩ | ⟨hk, hc⟩
  · dsimp only
    rw [hc, if_neg (by simpa using hk)]
    refine ret ⟨rfl, ?_⟩
    rw [hlookup]
    unfold Tree.lookup
    rw [Option.isSome_map]
    split <;> rfl
  · dsimp only
    rw [if_pos hk]
    split
    · next hc' => exact absurd hc' (hc _)
    · exact ret ⟨rfl, rfl⟩

lemma entry (h : Represents w T) {parent : NodeId} (hp : 0 < T.links parent) (name : Name) :
    Does uid gid made n w (entry parent name) fun r w' =>
      w' = w ∧ r = lift ((T.entry ⟨parent, name⟩).map fun i => ⟨i, T.kind i⟩) := by
  refine (readNode h.holds hp).bind ?_
  rintro r _ ⟨rfl, d, rfl, hd⟩
  unfold Tree.entry
  rcases content_cases hd with ⟨entries, hc, hk, hlookup⟩ | ⟨hk, hc⟩
  · dsimp only
    rw [hc, if_neg (by simpa using hk)]
    dsimp only
    rw [hlookup]
    unfold Tree.lookup
    cases T.find ⟨parent, name⟩ with
    | none => exact ret ⟨rfl, rfl⟩
    | some i => exact ret ⟨rfl, rfl⟩
  · dsimp only
    rw [if_pos hk]
    split
    · next hc' => exact absurd hc' (hc _)
    · exact ret ⟨rfl, rfl⟩

lemma kind (h : Represents w T) {id : NodeId} (hid : 0 < T.links id) :
    Does uid gid made n w (kind id) fun r w' => w' = w ∧ r = .ok (T.kind id) := by
  refine (readNode h.holds hid).bind ?_
  rintro r _ ⟨rfl, d, rfl, hd⟩
  have hkind : d.kind = T.kind id := congrArg Shape.kind hd
  exact ret ⟨rfl, by rw [hkind]⟩

/-! ### Callbacks that make names -/

lemma linkInto {L : NodeId → ℕ} {A : NodeId → Shape} (h : w.Holds L A) {parent : NodeId}
    (hp : 0 < L parent) (name : Name) (e : DirEntry) (t : SystemTime) :
    Does uid gid made n w (linkInto parent name e t) fun _ w' => w'.Holds L
      (Function.update A parent ((Update.linkInto name e .epoch).onShape (A parent))) := by
  refine (writeNode h hp (.linkInto name e t)).bind ?_
  rintro _ w' ⟨hw', _⟩
  exact ret hw'

/-- `create_child` makes a node, or fails and leaves the view alone. -/
lemma createChild (h : Represents w T) {parent : NodeId} (hp : 0 < T.links parent) (name : Name)
    {k : FileKind} {content : Content}
    (hcontent : ∀ perm rdev t,
      (NodeData.new k content perm uid gid rdev t).shape = Tree.freshShape k) (perm rdev : ℕ) :
    Does uid gid made n w (createChild uid gid parent name k content perm rdev) fun r w' =>
      match T.checkNew ⟨parent, name⟩ with
      | .error e => r = fail e ∧ w' = w
      | .ok _ => ∃ id, T.links id = 0 ∧ r = .ok id ∧
          Represents w' (T.make ⟨parent, name⟩ k id) := by
  refine (checkNewEntry h hp name).bind ?_
  rintro r _ ⟨rfl, rfl⟩
  cases hnew : T.checkNew ⟨parent, name⟩ with
  | error e => exact ret ⟨rfl, rfl⟩
  | ok _ =>
    obtain ⟨hparent, hfree⟩ := Tree.WF.of_checkNew hnew
    refine now.bind ?_
    rintro created _ rfl
    refine (alloc h.holds _).bind ?_
    rintro c w₁ ⟨h₁, hc⟩
    refine (insert h₁ hc parent).bind ?_
    rintro (id : NodeId) w₂ ⟨hid, h₂⟩
    have hne : parent ≠ id := by
      rintro rfl
      omega
    refine now.bind ?_
    rintro linked _ rfl
    have hp₂ : 0 < Function.update T.links id 1 parent := by
      rw [Function.update_of_ne hne]
      exact hp
    refine (linkInto h₂ hp₂ name _ linked).bind ?_
    intro _ w₃ h₃
    refine ret ⟨id, hid, rfl, h₃.congr ?_ ?_, h.wf.make hnew hp hid k⟩
    · intro x
      have hlinks : (T.make ⟨parent, name⟩ k id).links x =
          T.links x + if x = id then 1 else 0 :=
        Tree.links_bind (T := T.setKind id k) hfree id x
      rw [hlinks, Function.update_apply]
      by_cases hx : x = id
      · rw [if_pos hx, if_pos hx, hx, hid]
      · rw [if_neg hx, if_neg hx, Nat.add_zero]
    · intro x _
      rw [Tree.shape_make h.wf hfree hid hp hparent, hcontent, Function.update_apply,
        Function.update_of_ne hne]
      by_cases hx : x = id
      · have hxp : x ≠ parent := fun heq => hne (heq.symm.trans hx)
        rw [if_pos hx, if_neg hxp, hx, Function.update_self]
      · rw [if_neg hx, Function.update_of_ne hx]
        by_cases hxp : x = parent
        · rw [if_pos hxp, if_pos hxp, hxp]
        · rw [if_neg hxp, if_neg hxp]

/-- `link` gives a node one more name, or fails and leaves the view alone. -/
lemma link (h : Represents w T) {id newparent : NodeId} (hid : 0 < T.links id)
    (hp : 0 < T.links newparent) (newname : Name) :
    Does uid gid made n w (link id newparent newname) fun r w' =>
      match T.link id ⟨newparent, newname⟩ with
      | .error e => r = fail e ∧ w' = w
      | .ok T' => r = .ok id ∧ Represents w' T' := by
  refine (kind h hid).bind ?_
  rintro r _ ⟨rfl, rfl⟩
  unfold Tree.link
  by_cases hkind : T.kind id = .directory
  · rw [if_pos hkind]
    refine ite (fun _ => ret ⟨rfl, rfl⟩) fun hne => absurd hkind hne
  · rw [if_neg hkind]
    refine ite (fun heq => absurd heq hkind) fun _ => (checkNewEntry h hp newname).bind ?_
    rintro r _ ⟨rfl, rfl⟩
    cases hnew : T.checkNew ⟨newparent, newname⟩ with
    | error e => exact ret ⟨rfl, rfl⟩
    | ok _ =>
      obtain ⟨hparent, hfree⟩ := Tree.WF.of_checkNew hnew
      have hne : id ≠ newparent := by
        rintro rfl
        exact hkind hparent
      refine now.bind ?_
      rintro t _ rfl
      refine (kind h hid).bind ?_
      rintro r _ ⟨rfl, rfl⟩
      refine (linkInto h.holds hp newname _ t).bind ?_
      intro _ w₁ h₁
      refine (addLink h₁ hid).bind ?_
      intro _ w₂ h₂
      have hid₂ : 0 < Function.update T.links id (T.links id + 1) id := by
        rw [Function.update_self]
        exact Nat.succ_pos _
      refine (writeNode h₂ hid₂ (.linked t)).bind ?_
      rintro _ w₃ ⟨h₃, _⟩
      refine ret ⟨rfl, h₃.congr ?_ ?_, h.wf.link hnew hp hkind⟩
      · intro x
        rw [Tree.links_bind hfree, Function.update_apply]
        by_cases hx : x = id
        · rw [if_pos hx, if_pos hx, hx]
        · rw [if_neg hx, if_neg hx, Nat.add_zero]
      · intro x _
        rw [Tree.shape_bind hfree hkind hparent, Function.update_apply, Function.update_of_ne hne]
        by_cases hx : x = id
        · rw [if_pos hx, if_pos hx, hx]
          rfl
        · rw [if_neg hx, if_neg hx, Function.update_apply]
          by_cases hxp : x = newparent
          · rw [if_pos hxp, if_pos hxp, hxp]
          · rw [if_neg hxp, if_neg hxp]

/-! ### Callbacks that take names away -/

/-- `unlink` takes a name away, or fails and leaves the view alone. -/
lemma unlink (h : Represents w T) {parent : NodeId} (hp : 0 < T.links parent) (name : Name) :
    Does uid gid made n w (unlink parent name) fun r w' =>
      match T.unlink ⟨parent, name⟩ with
      | .error e => r = fail e ∧ w' = w
      | .ok T' => r = .ok () ∧ Represents w' T' := by
  refine (entry h hp name).bind ?_
  rintro r _ ⟨rfl, rfl⟩
  unfold Tree.unlink
  cases hentry : T.entry ⟨parent, name⟩ with
  | error e => exact ret ⟨rfl, rfl⟩
  | ok id =>
    obtain ⟨hparent, hfind⟩ := Tree.WF.of_entry hentry
    have hid : 0 < T.links id := Tree.links_pos hfind
    refine (kind h hid).bind ?_
    rintro r _ ⟨rfl, rfl⟩
    by_cases hkind : T.kind id = .directory
    · refine ite (fun _ => ?_) fun hne => absurd hkind hne
      simp only [Except.bind, if_pos hkind]
      exact ret ⟨rfl, rfl⟩
    · refine ite (fun heq => absurd heq hkind) fun _ => ?_
      simp only [Except.bind, if_neg hkind]
      have hne : id ≠ parent := by
        rintro rfl
        exact hkind hparent
      refine now.bind ?_
      rintro t _ rfl
      refine (writeNode h.holds hp (.removeEntry name t)).bind ?_
      rintro _ w₁ ⟨h₁, _⟩
      refine (writeNode h₁ hid (.unlinked t)).bind ?_
      rintro _ w₂ ⟨h₂, _⟩
      refine (removeLink h₂ hid).bind ?_
      intro _ w₃ h₃
      refine ret ⟨rfl, h₃.congr ?_ ?_, h.wf.unbind hfind (Or.inl hkind)⟩
      · intro x
        have hlinks := Tree.links_unbind hfind x
        rw [Function.update_apply]
        by_cases hx : x = id
        · rw [if_pos hx] at hlinks ⊢
          subst hx
          omega
        · rw [if_neg hx] at hlinks ⊢
          omega
      · intro x _
        rw [Tree.shape_unlink hfind hkind hparent, Function.update_apply, Function.update_of_ne hne]
        by_cases hx : x = id
        · rw [if_pos hx, if_pos hx, hx]
          rfl
        · rw [if_neg hx, if_neg hx, Function.update_apply]
          by_cases hxp : x = parent
          · rw [if_pos hxp, if_pos hxp, hxp]
            rfl
          · rw [if_neg hxp, if_neg hxp]

/-- The part of `rmdir` that holds the lock of the directory to be removed. -/
lemma rmdirChild (h : Represents w T) {parent : NodeId} (hp : 0 < T.links parent) {name : Name}
    {id c : NodeId} (hentry : T.entry ⟨parent, name⟩ = .ok id)
    (hshow : w.cell c = some (T.shape id)) :
    Does uid gid made n w (rmdirChild parent name id c) fun r w' =>
      match T.rmdir ⟨parent, name⟩ with
      | .error e => r = fail e ∧ w' = w
      | .ok T' => r = .ok () ∧ Represents w' T' := by
  obtain ⟨hparent, hfind⟩ := Tree.WF.of_entry hentry
  have hid : 0 < T.links id := Tree.links_pos hfind
  refine (readCell hshow).bind ?_
  rintro d _ ⟨rfl, hd⟩
  unfold Tree.rmdir
  rw [hentry]
  rcases content_cases hd with ⟨entries, hcontent, hkind, hlookup⟩ | ⟨hkind, hcontent⟩
  · simp only [Except.bind, hcontent, hkind, ne_eq, not_true_eq_false, if_false]
    have hempty := empty_iff hlookup
    refine ite (fun he => ?_) fun he => ?_
    · have hsize := hempty.mp he
      rw [if_neg (not_not.mpr hsize)]
      have hne : id ≠ parent := by
        rintro rfl
        have hnone := Tree.size_eq_zero_iff.mp hsize name
        rw [hfind] at hnone
        cases hnone
      refine now.bind ?_
      rintro t _ rfl
      refine (writeNode h.holds hp (.removeSubdir name t)).bind ?_
      rintro _ w₁ ⟨h₁, _⟩
      refine (writeNode h₁ hid (.removed t)).bind ?_
      rintro _ w₂ ⟨h₂, _⟩
      refine (removeLink h₂ hid).bind ?_
      intro _ w₃ h₃
      have hone := h.wf.single hkind
      refine ret ⟨rfl, h₃.congr ?_ ?_, h.wf.unbind hfind (Or.inr hsize)⟩
      · intro x
        have hlinks := Tree.links_unbind hfind x
        rw [Function.update_apply]
        by_cases hx : x = id
        · rw [if_pos hx] at hlinks ⊢
          subst hx
          omega
        · rw [if_neg hx] at hlinks ⊢
          omega
      · intro x hx
        have hxid : x ≠ id := by
          rintro rfl
          rw [Function.update_self] at hx
          omega
        rw [Tree.shape_rmdir hfind hkind hparent hxid, Function.update_of_ne hxid,
          Function.update_apply]
        by_cases hxp : x = parent
        · rw [if_pos hxp, if_pos hxp, hxp]
          rfl
        · rw [if_neg hxp, if_neg hxp]
    · rw [if_pos fun hsize => he (hempty.mpr hsize)]
      exact ret ⟨rfl, rfl⟩
  · simp only [Except.bind, if_pos hkind]
    exact ret ⟨rfl, rfl⟩

/-- `rmdir` takes the name of an empty directory away, or fails and leaves the view alone. -/
lemma rmdir (h : Represents w T) {parent : NodeId} (hp : 0 < T.links parent) (name : Name) :
    Does uid gid made n w (rmdir parent name) fun r w' =>
      match T.rmdir ⟨parent, name⟩ with
      | .error e => r = fail e ∧ w' = w
      | .ok T' => r = .ok () ∧ Represents w' T' := by
  refine (entry h hp name).bind ?_
  intro r w' hr
  obtain ⟨rfl, rfl⟩ := hr
  cases hentry : T.entry ⟨parent, name⟩ with
  | error e =>
    unfold Tree.rmdir
    rw [hentry]
    exact ret ⟨rfl, rfl⟩
  | ok id =>
    obtain ⟨c, hc, hshow⟩ := h.holds.shown (Tree.links_pos (Tree.WF.of_entry hentry).2)
    refine (visit hc (rmdirChild h hp hentry hshow)).bind ?_
    rintro r w' ⟨a, rfl, ha⟩
    exact ret ha

end Does

end MemoryFs

end TypedFuse
