import TypedFuse.Path.Objects

/-!
# Callbacks over a tree

Every callback of the adapter keeps the tree of the inner filesystem represented: it asks for paths
of nodes, hands them to the inner filesystem, and follows with the names what that did to the tree.
Names in requests are ordinary, and a name that is to be moved is bound.
-/

namespace TypedFuse

open Conc Conc.Service NodeTable TypedFuse.Runtime

variable {P : PathFilesystem} {F : TreeFilesystem P} {req : Request} {n : ℕ}
  {α β : Type}

/-! ## Steps of callbacks -/

namespace Course

variable {v : Scene P}

/-- A callback under a read guard does what its body does. -/
lemma reading {body : PathNodeFs.Callback P α} {Q : α → Scene P → Prop}
    (h : Course F req n v body Q) : Course F req n v (PathNodeFs.reading body) Q := by
  refine quiet Effect.readLock (Prog.performs_perform trivial) fun _ => h.bind ?_
  intro a v' ha
  exact quiet Effect.readUnlock (Prog.performs_perform trivial) fun _ => ret ha

/-- A callback under the write guard does what its body does. -/
lemma writing {body : PathNodeFs.Callback P α} {Q : α → Scene P → Prop}
    (h : Course F req n v body Q) : Course F req n v (PathNodeFs.writing body) Q := by
  refine quiet Effect.writeLock (Prog.performs_perform trivial) fun _ => h.bind ?_
  intro a v' ha
  exact quiet Effect.writeUnlock (Prog.performs_perform trivial) fun _ => ret ha

/-- `self.path(id)?` fails or goes on with the path. -/
lemma withPathOf {id : NodeId} {next : Path → PathNodeFs.Callback P (Fallible α)}
    {Q : Fallible α → Scene P → Prop} (hfail : Q (fail .ENOENT) v)
    (h : ∀ p, v.ns.pathFor id = some (some p) → Course F req n v (next p) Q) :
    Course F req n v (PathNodeFs.withPathOf id next) Q := by
  refine (of_effect (Effect.pathFor id) (Prog.performs_perform trivial)).bind ?_
  rintro r _ ⟨_, _, rfl, hp, rfl, rfl⟩
  cases r with
  | none => exact ret hfail
  | some p => exact h p hp

lemma performs_nodePath (node : PathNode) :
    (PathNodeFs.nodePath node : PathNodeFs.Callback P (Option Path)).Performs Modest := by
  refine ⟨trivial, fun id => ?_⟩
  cases id with
  | none => exact Prog.performs_ret _
  | some id => exact Prog.performs_perform trivial

lemma performs_removeLinkOf (removed : Option NodeId) :
    (PathNodeFs.removeLinkOf removed : PathNodeFs.Callback P Unit).Performs Modest := by
  cases removed with
  | none => exact Prog.performs_ret ()
  | some id => exact Prog.performs_perform trivial

lemma performs_removeDentry (d : Dentry) :
    (PathNodeFs.removeDentry d : PathNodeFs.Callback P Unit).Performs Modest :=
  ⟨trivial, fun _ => ⟨trivial, fun removed => (performs_removeLinkOf removed).bind
    fun _ => Prog.performs_perform trivial⟩⟩

lemma performs_moveDentry (old new : Dentry) :
    (PathNodeFs.moveDentry old new : PathNodeFs.Callback P Unit).Performs Modest := by
  refine ⟨trivial, fun source => ?_⟩
  cases source with
  | none => exact Prog.performs_ret ()
  | some source =>
    refine ⟨trivial, fun target => ?_⟩
    refine Prog.Performs.ite (Prog.performs_ret ()) ⟨trivial, fun replaced => ?_⟩
    refine (performs_removeLinkOf replaced).bind fun _ => ?_
    exact ⟨trivial, fun _ => ⟨trivial, fun _ => Prog.performs_perform trivial⟩⟩

/-- `node_path` with a key that leads to a node: the path of that node. -/
lemma nodePath_for (node : PathNode) {id : NodeId} (hid : v.ns.idForNode node.key = some id) :
    Course F req n v (PathNodeFs.nodePath node) fun r v' => v' = v ∧ v.ns.pathFor id = some r := by
  refine (of_effect (Effect.nodePath_for node hid) (performs_nodePath node)).mono ?_
  rintro r _ ⟨_, _, rfl, rfl, rfl, hr⟩
  exact ⟨rfl, hr⟩

/-- `Namespace::insert` finds the node of a bound name, or makes one. -/
lemma insert {parent : NodeId} {name : Name} {Q : NodeId × Bool → Scene P → Prop}
    (hfound : ∀ id, v.ns.find ⟨parent, name⟩ = some id → Q (id, false) v)
    (hmade : ∀ key ns₁ id t', v.ns.find ⟨parent, name⟩ = none → v.ns.takeKey = some (key, ns₁) →
      v.table.insert (⟨key⟩ : PathNode) parent = some (id, t') →
      Q (id, true) ⟨v.inner, ns₁.record key id ⟨parent, name⟩,
        v.born.insert key ⟨v.inner, ns₁.pathFor parent, name⟩, t'⟩) :
    Course F req n v (PathNodeFs.insert parent name) Q := by
  refine quiet Effect.nsLock (Prog.performs_perform trivial) fun _ => ?_
  refine (of_effect (Effect.known _) (Prog.performs_perform trivial)).bind ?_
  rintro r _ ⟨_, _, rfl, hr, rfl, rfl⟩
  cases r with
  | some id =>
    exact quiet Effect.nsUnlock (Prog.performs_perform trivial) fun _ => ret (hfound id hr.symm)
  | none =>
    refine (of_effect Effect.takeKey (Prog.performs_perform trivial)).bind ?_
    rintro key _ ⟨ns₁, _, rfl, hkey, rfl⟩
    refine (of_effect (Effect.insertNode _ parent) (Prog.performs_perform trivial)).bind ?_
    rintro id _ ⟨_, t', rfl, rfl, hins⟩
    refine (record key id _).bind ?_
    rintro _ _ rfl
    exact quiet Effect.nsUnlock (Prog.performs_perform trivial) fun _ =>
      ret (hmade key _ id t' hr.symm hkey hins)

end Course

/-- A path is the path of a node. -/
abbrev PathsOf (ns : Namespace) : List Path → List NodeId → Prop :=
  Matched fun p i => ns.pathFor i = some (some p)

/-- A path that was found is the path of its node. -/
lemma pathsOf_toList {ns : Namespace} {i : NodeId} {path : Option Path}
    (h : ns.pathFor i = some path) (is : List NodeId) : PathsOf ns path.toList (i :: is) := by
  cases path with
  | none => trivial
  | some p => exact ⟨h, trivial⟩

/-- A call of the inner filesystem with ordinary names and the paths of nodes. -/
lemma RepresentsTree.call {v : Scene P} (h : RepresentsTree F v) {c : PathCall P.Payload}
    (hnames : ∀ name ∈ c.names, name.Ordinary)
    (hpaths : PathsOf v.ns c.paths (req.subjects v.ns c)) :
    Course F req n v (PathNodeFs.inner c) fun r v' =>
      ∃ g, v' = { v with inner := g } ∧ F.Valid g ∧
        (F.tree v.inner).Answers c r (F.tree g) := by
  refine Course.inner (hpaths.mono fun p i hp => h.handed hp) ?_
  intro ch r g hcall
  exact ⟨g, rfl, F.call h.valid hnames hcall⟩

/-! ## Callbacks about a node -/

/-- The tree is represented, and something holds of the names. -/
structure Kept (F : TreeFilesystem P) (J : Namespace → Prop) (v : Scene P) : Prop where
  represents : RepresentsTree F v
  names : J v.ns

namespace Kept

variable {J : Namespace → Prop} {v : Scene P}

/-- A modest callback that changes neither the names nor the inode table. -/
lemma quiet (h : Kept F J v) {p : PathNodeFs.Callback P α}
    (heffect : Effect P n v.ns v.table p fun _ ns' t' => ns' = v.ns ∧ t' = v.table)
    (hp : p.Performs Modest) : Course F req n v p fun _ v' => Kept F J v' := by
  refine (Course.of_effect heffect hp).mono ?_
  rintro _ _ ⟨_, _, rfl, rfl, rfl⟩
  exact h

/-- A call that leaves the tree alone. -/
lemma ask (h : Kept F J v) {c : PathCall P.Payload} (hnames : ∀ name ∈ c.names, name.Ordinary)
    (hpaths : PathsOf v.ns c.paths (req.subjects v.ns c))
    (hsteady : ∀ (T T' : ObjectTree F.Obj Name) r, T.Answers c r T' → T' = T) :
    Course F req n v (PathNodeFs.inner c) fun _ v' => Kept F J v' := by
  refine (h.represents.call hnames hpaths).mono ?_
  rintro r _ ⟨g, rfl, hvalid, hanswers⟩
  exact ⟨h.represents.answered hvalid (hsteady _ _ r hanswers), h.names⟩

/-- Asking for the path of a node, and calling the inner filesystem with what was found. -/
lemma pathThen (h : Kept F J v) {node : PathNode} {i : NodeId}
    (hkey : ∀ ns, J ns → ns.idForNode node.key = some i)
    {f : Option Path → PathNodeFs.Callback P α}
    (hf : ∀ path, (∀ is, PathsOf v.ns path.toList (i :: is)) →
      Course F req n v (f path) fun _ v' => Kept F J v') :
    Course F req n v (PathNodeFs.reading (PathNodeFs.nodePath node >>= f))
      fun _ v' => Kept F J v' := by
  refine Course.reading ((Course.nodePath_for node (hkey v.ns h.names)).bind ?_)
  rintro path _ ⟨rfl, hpath⟩
  exact hf path (pathsOf_toList hpath)

/-- Likewise for callbacks that fail without a path. -/
lemma withPath (h : Kept F J v) {node : PathNode} {i : NodeId}
    (hkey : ∀ ns, J ns → ns.idForNode node.key = some i)
    {f : Path → PathNodeFs.Callback P (Fallible α)}
    (hf : ∀ p, PathsOf v.ns [p] [i] → Course F req n v (f p) fun _ v' => Kept F J v') :
    Course F req n v (PathNodeFs.reading (PathNodeFs.withPath node f))
      fun _ v' => Kept F J v' := by
  refine h.pathThen hkey fun path hpath => ?_
  cases path with
  | none => exact Course.ret h
  | some p => exact hf p (hpath [])

end Kept

/-! ## Callbacks about names -/

namespace RepresentsTree

variable {v : Scene P}

/-- Adding a node for a name that the tree has, in a directory with a path. -/
lemma addNode (h : RepresentsTree F v) {parent : NodeId} {name : Name} {p : Path} {a x : F.Obj}
    (hp : v.ns.pathFor parent = some (some p)) (ha : Stands F v parent a)
    (hx : (F.tree v.inner).child a name = some x) :
    Course F req n v (PathNodeFs.addNode parent name) fun id v' =>
      RepresentsTree F v' ∧ v'.ns.find ⟨parent, name⟩ = some id := by
  have hplaced := Namespace.Placed.of_pathFor h.rooted.named hp
  have hinsert : Course F req n v (PathNodeFs.insert parent name) fun r v' =>
      RepresentsTree F v' ∧ v'.ns.find ⟨parent, name⟩ = some r.1 := by
    refine Course.insert (fun id hfind => ⟨h, hfind⟩) ?_
    intro key ns₁ id t' hfree hkey hins
    refine ⟨(h.made hfree hplaced ha hx hkey hins).1, ?_⟩
    exact (Namespace.find_recorded hkey _).trans (if_pos rfl)
  exact hinsert.bind fun _ _ h' => Course.ret h'

lemma lookup (h : RepresentsTree F v) (parent : NodeId) {name : Name} (hname : name.Ordinary)
    (caller : Caller) :
    Course F (.lookup parent name caller) n v (PathNodeFs.lookup parent name caller) fun r v' =>
      RepresentsTree F v' ∧ ∀ id, r = .ok (some id) → v'.ns.find ⟨parent, name⟩ = some id := by
  refine Course.reading (Course.withPathOf ⟨h, fun _ hid => nomatch hid⟩ fun p hp => ?_)
  refine Course.bind (h.call (c := .lookup p name caller) (List.forall_mem_singleton.mpr hname)
    ⟨hp, trivial⟩) ?_
  rintro r _ ⟨g, rfl, hvalid, htree, hfound⟩
  have h' := h.answered hvalid htree
  cases r with
  | error e => exact Course.ret ⟨h', fun _ hid => nomatch hid⟩
  | ok attr =>
    cases attr with
    | none => exact Course.ret ⟨h', fun _ hid => nomatch hid⟩
    | some attr =>
      obtain ⟨a, x, ha, hx⟩ := hfound attr rfl
      obtain ⟨o, ho, hresolve⟩ := h.resolve (Namespace.pathOf_of_pathFor hp)
      obtain rfl := Option.some.inj (hresolve.symm.trans ha)
      rw [← htree] at hx
      refine (h'.addNode hp ho hx).bind ?_
      rintro id v' ⟨hrep, hfind⟩
      refine Course.ret ⟨hrep, fun i hi => ?_⟩
      rw [hfind, Option.some.inj (Except.ok.inj hi)]

/-- `mknod`, `mkdir` and `symlink`. -/
lemma makeNode (h : RepresentsTree F v) (parent : NodeId) {name : Name} (dir : Prop)
    {make : Path → PathNodeFs.Callback P (Fallible NodeAttr)}
    (hmake : ∀ p, v.ns.pathFor parent = some (some p) →
      Course F req n v (make p) fun r v' => ∃ g, v' = { v with inner := g } ∧ F.Valid g ∧
        (F.tree v.inner).OnOk r ((F.tree v.inner).Makes p name dir) (F.tree g)) :
    Course F req n v (PathNodeFs.makeNode parent name make) fun r v' =>
      RepresentsTree F v' ∧ ∀ id, r = .ok id → v'.ns.find ⟨parent, name⟩ = some id := by
  refine Course.writing (Course.withPathOf ⟨h, fun _ hid => nomatch hid⟩ fun p hp => ?_)
  refine (hmake p hp).bind ?_
  rintro r _ ⟨g, rfl, hvalid, hmade⟩
  cases r with
  | error e => exact Course.ret ⟨h.answered hvalid hmade, fun _ hid => nomatch hid⟩
  | ok attr =>
    obtain ⟨h', a, x, ha, hx⟩ := h.makes hp hvalid hmade
    refine (h'.addNode hp ha hx).bind ?_
    rintro id v' ⟨hrep, hfind⟩
    refine Course.ret ⟨hrep, fun i hi => ?_⟩
    rw [hfind, Except.ok.inj hi]

lemma create (h : RepresentsTree F v) (parent : NodeId) {name : Name} (hname : name.Ordinary)
    (mode umask : ℕ) (flags : ℤ) (caller : Caller) :
    Course F (.create parent name mode umask flags caller) n v
      (PathNodeFs.create parent name mode umask flags caller) fun r v' =>
        RepresentsTree F v' ∧ ∀ x, r = .ok x → v'.ns.find ⟨parent, name⟩ = some x.1 := by
  refine Course.writing (Course.withPathOf ⟨h, fun _ hid => nomatch hid⟩ fun p hp => ?_)
  refine Course.bind (h.call (c := .create p name mode umask flags caller)
    (List.forall_mem_singleton.mpr hname) ⟨hp, trivial⟩) ?_
  rintro r _ ⟨g, rfl, hvalid, hcreated⟩
  cases r with
  | error e => exact Course.ret ⟨h.answered hvalid hcreated, fun _ hid => nomatch hid⟩
  | ok made =>
    have hthere : RepresentsTree F { v with inner := g } ∧
        ∃ a x, Stands F v parent a ∧ (F.tree g).child a name = some x := by
      rcases hcreated with hmakes | ⟨a, x, ha, hx, htree⟩
      · exact h.makes hp hvalid hmakes
      · obtain ⟨o, ho, hresolve⟩ := h.resolve (Namespace.pathOf_of_pathFor hp)
        obtain rfl := Option.some.inj (hresolve.symm.trans ha)
        rw [← htree] at hx
        exact ⟨h.answered hvalid htree, o, x, ho, hx⟩
    obtain ⟨h', a, x, ha, hx⟩ := hthere
    refine (h'.addNode hp ha hx).bind ?_
    rintro id v' ⟨hrep, hfind⟩
    refine Course.ret ⟨hrep, fun y hy => ?_⟩
    rw [hfind, ← Except.ok.inj hy]

lemma link (h : RepresentsTree F v) (id newparent : NodeId) {newname : Name}
    (hname : newname.Ordinary) (caller : Caller) :
    Course F (.makeOp (.link id newparent newname) caller) n v
      (PathNodeFs.link id newparent newname caller) fun r v' =>
        RepresentsTree F v' ∧ ∀ i, r = .ok i → i = id := by
  refine Course.writing (Course.withPathOf ⟨h, fun _ hid => nomatch hid⟩ fun p hp => ?_)
  refine Course.withPathOf ⟨h, fun _ hid => nomatch hid⟩ fun p' hp' => ?_
  refine Course.bind (h.call (c := .link p p' newname caller)
    (List.forall_mem_singleton.mpr hname) ⟨hp, hp', trivial⟩) ?_
  rintro r _ ⟨g, rfl, hvalid, hlinked⟩
  cases r with
  | error e => exact Course.ret ⟨h.answered hvalid hlinked, fun _ hid => nomatch hid⟩
  | ok attr =>
    obtain ⟨x, a, hx, ha, hdir, hfree, htree⟩ := hlinked
    obtain ⟨x', hx', hresolve⟩ := h.resolve (Namespace.pathOf_of_pathFor hp)
    obtain rfl := Option.some.inj (hresolve.symm.trans hx)
    obtain ⟨a', ha', hresolve'⟩ := h.resolve (Namespace.pathOf_of_pathFor hp')
    obtain rfl := Option.some.inj (hresolve'.symm.trans ha)
    refine Course.quiet Effect.nsLock (Prog.performs_perform trivial) fun _ => ?_
    refine (Course.of_effect (Effect.addAlias id ⟨newparent, newname⟩)
      (Prog.performs_perform trivial)).bind ?_
    rintro _ _ ⟨_, _, rfl, rfl, rfl⟩
    refine Course.quiet Effect.nsUnlock (Prog.performs_perform trivial) fun _ => ?_
    refine (Course.of_effect (Effect.addLink id) (Prog.performs_perform trivial)).bind ?_
    rintro _ _ ⟨_, t', rfl, rfl, hadd⟩
    refine Course.ret ⟨?_, fun i hi => (Except.ok.inj hi).symm⟩
    exact h.linked (.of_pathFor h.rooted.named hp) (.of_pathFor h.rooted.named hp') hx' ha'
      hvalid hdir hfree htree hadd

/-- `unlink` and `rmdir`. -/
lemma removeEntry (h : RepresentsTree F v) (parent : NodeId) {name : Name} (hname : name.Ordinary)
    (directory : Bool) (caller : Caller)
    (hreq : ∀ ns (c : PathCall P.Payload), req.subjects ns c = [parent]) :
    Course F req n v (PathNodeFs.removeEntry parent name directory caller)
      fun _ v' => RepresentsTree F v' := by
  refine Course.writing (Course.withPathOf h fun p hp => ?_)
  have hpaths : ∀ c : PathCall P.Payload, PathsOf v.ns [p] (req.subjects v.ns c) := by
    intro c
    rw [hreq]
    exact ⟨hp, trivial⟩
  -- both remove an object that holds nothing
  have hinner : Course F req n v (PathNodeFs.removeInner p name directory caller) fun r v' =>
      ∃ g, v' = { v with inner := g } ∧ F.Valid g ∧
        (F.tree v.inner).OnOk r (fun T' => ∃ a x, (F.tree v.inner).resolve p = some a ∧
          (F.tree v.inner).child a name = some x ∧ (∀ m, (F.tree v.inner).child x m = none) ∧
          T' = (F.tree v.inner).set a name none) (F.tree g) := by
    cases directory with
    | true =>
      refine (h.call (c := .rmdir p name caller) (List.forall_mem_singleton.mpr hname)
        (hpaths _)).mono ?_
      rintro r _ ⟨g, rfl, hvalid, hremoved⟩
      refine ⟨g, rfl, hvalid, ?_⟩
      cases r with
      | error e => exact hremoved
      | ok u =>
        obtain ⟨a, x, ha, hx, _, hempty, htree⟩ := hremoved
        exact ⟨a, x, ha, hx, hempty, htree⟩
    | false =>
      refine (h.call (c := .unlink p name caller) (List.forall_mem_singleton.mpr hname)
        (hpaths _)).mono ?_
      rintro r _ ⟨g, rfl, hvalid, hremoved⟩
      refine ⟨g, rfl, hvalid, ?_⟩
      cases r with
      | error e => exact hremoved
      | ok u =>
        obtain ⟨a, x, ha, hx, hdir, htree⟩ := hremoved
        exact ⟨a, x, ha, hx, h.wf.child_eq_none hdir, htree⟩
  refine hinner.bind ?_
  rintro r _ ⟨g, rfl, hvalid, hremoved⟩
  cases r with
  | error e => exact Course.ret (h.answered hvalid hremoved)
  | ok u =>
    obtain ⟨a, x, ha, hx, hempty, htree⟩ := hremoved
    obtain ⟨o, ho, hresolve⟩ := h.resolve (Namespace.pathOf_of_pathFor hp)
    obtain rfl := Option.some.inj (hresolve.symm.trans ha)
    refine (Course.of_effect (Effect.removeDentry ⟨parent, name⟩)
      (Course.performs_removeDentry _)).bind ?_
    rintro _ _ ⟨_, _, rfl, rfl, rfl⟩
    exact Course.ret (h.removed (.of_pathFor h.rooted.named hp) ho hvalid hx hempty htree)

/-- `rename` of a bound name. -/
lemma rename (h : RepresentsTree F v) (parent : NodeId) {name : Name} (hname : name.Ordinary)
    (newparent : NodeId) {newname : Name} (hnew : newname.Ordinary) (flags : ℕ) (caller : Caller)
    {source : NodeId} (hold : v.ns.find ⟨parent, name⟩ = some source) :
    Course F (.treeOp (.rename parent name newparent newname flags) caller) n v
      (PathNodeFs.rename parent name newparent newname flags caller)
      fun _ v' => RepresentsTree F v' := by
  refine Course.ite (fun _ => Course.ret h) fun _ => ?_
  refine Course.writing (Course.withPathOf h fun p hp => ?_)
  refine Course.withPathOf h fun p' hp' => ?_
  have hnames : ∀ m ∈ [name, newname], m.Ordinary :=
    List.forall_mem_cons.mpr ⟨hname, List.forall_mem_singleton.mpr hnew⟩
  refine Course.bind (h.call (c := .rename p name p' newname caller) hnames
    ⟨hp, hp', trivial⟩) ?_
  rintro r _ ⟨g, rfl, hvalid, hrenamed⟩
  cases r with
  | error e => exact Course.ret (h.answered hvalid hrenamed)
  | ok u =>
    obtain ⟨a, a', x, ha, ha', hx, htree⟩ := hrenamed
    obtain ⟨o, ho, hresolve⟩ := h.resolve (Namespace.pathOf_of_pathFor hp)
    obtain rfl := Option.some.inj (hresolve.symm.trans ha)
    obtain ⟨o', ho', hresolve'⟩ := h.resolve (Namespace.pathOf_of_pathFor hp')
    obtain rfl := Option.some.inj (hresolve'.symm.trans ha')
    refine Course.quiet Effect.nsLock (Prog.performs_perform trivial) fun _ => ?_
    refine (Course.of_effect (Effect.moveDentry ⟨parent, name⟩ ⟨newparent, newname⟩)
      (Course.performs_moveDentry _ _)).bind ?_
    rintro _ _ ⟨ns', t', rfl, hmoved⟩
    refine Course.quiet Effect.nsUnlock (Prog.performs_perform trivial) fun _ => Course.ret ?_
    exact h.renamed hold (.of_pathFor h.rooted.named hp') ho ho' hvalid hx htree hmoved

end RepresentsTree

end TypedFuse
