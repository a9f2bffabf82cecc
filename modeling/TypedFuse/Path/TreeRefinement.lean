import TypedFuse.Path.Represented
import TypedFuse.Path.TreeSample

/-!
# The adapter refines a tree of objects

Over a tree filesystem, with ordinary names in requests and bound names to be moved, every path that
the adapter hands to the inner filesystem in a sequential run leads to the object that its node was
inserted for.  Between requests names are bound to nodes of the objects that have these names, and
the nodes with a path are the root and the nodes with a name.
-/

namespace TypedFuse

open Conc Conc.Service NodeTable TypedFuse.Runtime

variable {P : PathFilesystem} {F : TreeFilesystem P} {req : Request} {n : ℕ} {α β D τ : Type}

/-! ## Programs of the runtime -/

/-- A property of scenes that calm sections of the runtime keep. -/
structure Steadfast (I : Scene P → Prop) : Prop where
  wf : ∀ {v}, I v → v.table.WF
  calm : ∀ {v} {t' : PathTable P}, I v → t'.WF → Calm v.table t' → I { v with table := t' }

/-- Whatever a program of the runtime does alone for a request, it hands over paths of the nodes
that the request is about and keeps a property of scenes. -/
def Guided (F : TreeFilesystem P) (req : Request) (n : ℕ) (I : Scene P → Prop)
    (p : RtProg (pathNodeFs P).toFsSig α) : Prop :=
  ∀ s : RtState (pathNodeFs P).toFsSig, I (scene s) →
    (service (pathNodeFs P)).Guarantees (HandsOver F req) n s p fun _ s' => I (scene s')

namespace Steadfast

variable {I : Scene P → Prop}

/-- Sections of the runtime keep such properties. -/
lemma exec (hI : Steadfast I) {s s' : RtState (pathNodeFs P).toFsSig}
    {i : RtInstr (pathNodeFs P).toFsSig} {ch : Option P.Choice} {r : i.Resp}
    (hi : ∀ j, i ≠ .fs j) (he : (service (pathNodeFs P)).exec n i ch s = some (r, s'))
    (h : I (scene s)) : I (scene s') := by
  obtain ⟨hcalm, hfs⟩ := calm_exec hi he
  have hscene : scene s' = { scene s with table := s'.table } := by
    unfold scene
    rw [hfs]
  rw [hscene]
  exact hI.calm h (wf_exec (hI.wf h) he) hcalm

lemma framed (hI : Steadfast I) : Framed (pathNodeFs P) (Guided F req n I) where
  ret := fun a s h => h
  bind := fun hp hf s h => (hp s h).bind fun a s' h' => hf a s' h'
  sect := by
    intro i hi s h
    refine Guarantees.perform ?_ fun ch r s' he => hI.exec hi he h
    cases i with
    | fs j => exact absurd rfl (hi j)
    | _ => trivial

end Steadfast

lemma steadfast_representsTree : Steadfast (RepresentsTree F) where
  wf := fun h => h.rooted.wf
  calm := fun h hwf hcalm => h.calm hwf hcalm

lemma Kept.steadfast {J : Namespace → Prop} : Steadfast (Kept F J) where
  wf := fun h => h.represents.rooted.wf
  calm := fun h hwf hcalm => ⟨h.represents.calm hwf hcalm, h.names⟩

lemma Course.guided {I : Scene P → Prop} {p : PathNodeFs.Callback P α}
    (h : ∀ v, I v → Course F req n v p fun _ v' => I v') :
    Guided F req n I (call (σ := PathNodeFs.sig P) p) :=
  fun s hs => h _ hs s rfl

/-! ## Scopes of nodes -/

/-- A key leads to a node. -/
def KeyOf (key : ℕ) (i : NodeId) (ns : Namespace) : Prop :=
  ns.idForNode key = some i

/-- The key of a live node leads to the node. -/
lemma RepresentsTree.keyOf {v : Scene P} (h : RepresentsTree F v) {id : NodeId}
    {ref : NodeRef (PathNodeFs.sig P).Node} {t' : PathTable P}
    (hget : v.table.get id = some (some ref, t')) :
    KeyOf (PathNode.key ref.record.payload) id v.ns := by
  rcases Leased.get_cases hget with ⟨hnone, _⟩ | ⟨sl, hsome, hslot, _⟩
  · cases hnone
  · obtain rfl := Option.some.inj hsome
    rcases h.rooted.keyed.slotKey id sl hslot with hkey | ⟨x, hx, _⟩
    · exact hkey
    · exact absurd hx (Multiset.notMem_zero x)

/-- `node(ino)?`: the key of the node leads to the node. -/
lemma guided_withNode {ino : ℕ} {body : NodeRef (pathNodeFs P).Node →
      RtProg (pathNodeFs P).toFsSig (Fallible α)}
    (hbody : ∀ node, Guided F req n (Kept F (KeyOf (PathNode.key node.record.payload) ino))
      (body node)) : Guided F req n (RepresentsTree F) (withNode ino body) := by
  intro s hs
  refine Guarantees.step trivial ?_
  intro ch r s₁ he
  have hs₁ : RepresentsTree F (scene s₁) :=
    steadfast_representsTree.exec (i := .node ino) (by simp) he hs
  obtain ⟨⟨o, t₁⟩, hget, heq⟩ := Option.map_eq_some_iff.mp he
  obtain ⟨rfl, rfl⟩ := Prod.mk.inj heq
  cases o with
  | none => exact hs₁
  | some ref =>
    refine Guarantees.bind (hbody ref _ ⟨hs₁, hs.keyOf hget⟩) ?_
    intro a s₂ hs₂
    refine Guarantees.bind
      ((steadfast_representsTree.framed.sect (i := .dropNode ref) (by simp)) s₂ hs₂.represents) ?_
    exact fun _ s₃ hs₃ => hs₃

/-- `entry_for` of a node whose attributes the request is about. -/
lemma guided_entryFor {J : Namespace → Prop} {id : NodeId} {caller : Caller}
    (hreq : ∀ ns path, J ns →
      ∃ is, req.subjects ns (.getattr path none caller : PathCall P.Payload) = id :: is) :
    Guided F req n (Kept F J) (entryFor (pathNodeFs P) id caller) := by
  refine Kept.steadfast.framed.bind (Kept.steadfast.framed.sect (by simp)) fun denoted => ?_
  intro s hs
  refine Guarantees.step trivial ?_
  intro ch r s₁ he
  have hs₁ : Kept F J (scene s₁) := Kept.steadfast.exec (i := .lease id) (by simp) he hs
  obtain ⟨⟨o, t₁⟩, hget, heq⟩ := Option.map_eq_some_iff.mp he
  obtain ⟨rfl, rfl⟩ := Prod.mk.inj heq
  cases o with
  | none => exact hs₁
  | some ref =>
    have hframed : Framed (pathNodeFs P) (Guided F req n
        (Kept F fun ns => J ns ∧ KeyOf (PathNode.key ref.record.payload) id ns)) :=
      Kept.steadfast.framed
    dsimp only
    refine Guarantees.mono (hframed.bind (Course.guided fun v h => ?_) (fun result => ?_) _
      ⟨hs₁.represents, hs₁.names, hs.represents.keyOf hget⟩)
      fun _ _ h => ⟨h.represents, h.names.1⟩
    · refine h.pathThen (fun _ hkey => hkey.2) fun path hpath => ?_
      obtain ⟨is, hsubjects⟩ := hreq v.ns path h.names.1
      refine h.ask (c := .getattr path none caller) (List.forall_mem_nil _) ?_ fun _ _ _ hT => hT
      rw [hsubjects]
      exact hpath is
    · cases result with
      | error e => exact hframed.bind (hframed.sect (by simp)) fun _ => hframed.ret _
      | ok attr =>
        refine hframed.bind (hframed.sect (by simp)) fun generation => ?_
        cases generation with
        | none => exact hframed.bind (hframed.sect (by simp)) fun _ => hframed.ret _
        | some generation => exact hframed.bind (hframed.sect (by simp)) fun _ => hframed.ret _

/-! ## Listings -/

/-- A listing of the directory `this`, which stands for `a`, is at work on a tree, and may have to
take names back. -/
structure Lists (F : TreeFilesystem P) (T : ObjectTree F.Obj Name) (key : ℕ) (this : NodeId)
    (a : F.Obj) (inserted : List Dentry) (v : Scene P) : Prop where
  represents : RepresentsTree F v
  emitting : Emitting this inserted v.ns v.table
  stands : Stands F v this a
  tree : F.tree v.inner = T
  keyed : v.ns.idForNode key = some this

namespace Lists

variable {T : ObjectTree F.Obj Name} {key : ℕ} {this : NodeId} {a : F.Obj}
  {inserted : List Dentry} {v : Scene P}

lemma steadfast : Steadfast (Lists F T key this a inserted) where
  wf := fun h => h.represents.rooted.wf
  calm := by
    intro v t' h hwf hcalm
    have h' := h.represents.calm hwf hcalm
    refine ⟨h', ⟨h'.rooted, h.emitting.placed, h.emitting.fresh⟩, ?_, h.tree, h.keyed⟩
    refine h.stands.origin h'.rooted (fun i sl' hsl' => ?_) h.emitting.placed
    obtain ⟨sl, hsl, hrec, _⟩ := hcalm.origin i sl' hsl'
    exact ⟨sl, hsl, hrec⟩

/-- Names that need not be taken back. -/
lemma fewer (h : Lists F T key this a inserted v) {ds : List Dentry}
    (hds : ∀ d ∈ ds, d ∈ inserted) : Lists F T key this a ds v :=
  ⟨h.represents, ⟨h.emitting.rooted, h.emitting.placed, fun d hd => h.emitting.fresh d (hds d hd)⟩,
    h.stands, h.tree, h.keyed⟩

/-- Taking a name back. -/
lemma removeDentry (h : Lists F T key this a inserted v) {d : Dentry} (hd : d ∈ inserted) :
    Course F req n v (PathNodeFs.removeDentry d) fun _ v' => Lists F T key this a inserted v' := by
  refine (Course.of_effect (Effect.removeDentry d) (Course.performs_removeDentry d)).mono ?_
  rintro _ _ ⟨_, _, rfl, rfl, rfl⟩
  cases hfind : v.ns.find d with
  | none =>
    rw [Namespace.remove_of_unbound hfind]
    exact h
  | some id =>
    have hemit := h.emitting.takeBack hd hfind
    refine ⟨?_, hemit, ?_, h.tree, ?_⟩
    · refine h.represents.congr hemit.rooted (fun _ _ => slot_removed) h.represents.valid rfl ?_
      intro d' i hd'
      rw [Namespace.find_remove] at hd'
      split at hd'
      · cases hd'
      · exact h.represents.bound d' i hd'
    · exact h.stands.origin hemit.rooted (fun _ _ => slot_removed) hemit.placed
    · change (v.ns.remove d).2.keys.lookup key = some this
      rw [Namespace.keys_remove]
      exact h.keyed

/-- Taking names back. -/
lemma rollback (ds : List Dentry) (hds : ∀ d ∈ ds, d ∈ inserted)
    (h : Lists F T key this a inserted v) :
    Course F req n v (PathNodeFs.rollback ds) fun _ v' => Lists F T key this a inserted v' := by
  induction ds generalizing v with
  | nil => exact Course.ret h
  | cons d ds ih =>
    refine (h.removeDentry (hds d List.mem_cons_self)).bind ?_
    intro _ v' h'
    exact ih (fun d' hd' => hds d' (List.mem_cons_of_mem d hd')) h'

/-- The end of a listing. -/
lemma undo (h : Lists F T key this a inserted v) (result : Fallible Unit) :
    Course F req n v (PathNodeFs.undo result inserted) fun _ v' => Kept F (KeyOf key this) v' := by
  match result with
  | .ok _ => exact Course.ret ⟨h.represents, h.keyed⟩
  | .error .panic => exact Course.ret ⟨h.represents, h.keyed⟩
  | .error (.errno _) =>
    refine (rollback _ (fun d hd => List.mem_reverse.mp hd) h).mono ?_
    exact fun _ _ h' => ⟨h'.represents, h'.keyed⟩

/-- Making a node for a name that the tree has. -/
lemma made (h : Lists F T key this a inserted v) {name : Name} {x : F.Obj}
    (hx : T.child a name = some x) (hfree : v.ns.find ⟨this, name⟩ = none) {k : ℕ}
    {ns₁ : Namespace} {id : NodeId} {t' : PathTable P} (hkey : v.ns.takeKey = some (k, ns₁))
    (hins : v.table.insert (⟨k⟩ : PathNode) this = some (id, t')) :
    Lists F T key this a (inserted ++ [⟨this, name⟩]) ⟨v.inner, ns₁.record k id ⟨this, name⟩,
      v.born.insert k ⟨v.inner, ns₁.pathFor this, name⟩, t'⟩ := by
  rw [← h.tree] at hx
  obtain ⟨hrep, hstands⟩ := h.represents.made hfree h.emitting.placed h.stands hx hkey hins
  refine ⟨hrep, h.emitting.made hfree hkey hins, hstands _ _ h.stands, h.tree, ?_⟩
  have hlt := h.represents.rooted.keyed.keysLt key this h.keyed
  change (ns₁.keys.insert k id).lookup key = some this
  rw [BTreeMap.lookup_insert_ite, if_neg, Namespace.takeKey_eq hkey]
  · exact h.keyed
  · rw [Namespace.takeKey_fst hkey]
    exact Nat.ne_of_lt hlt

/-- The node of an emitted entry. -/
lemma enumerate (h : Lists F T key this a inserted v) (parent : NodeId) {name : Name}
    (hname : name = Name.dot ∨ name = Name.dotDot ∨ ∃ x, T.child a name = some x) :
    Course F req n v (PathNodeFs.enumerate this parent name) fun r v' =>
      (r.2 = none ∧ Lists F T key this a inserted v') ∨
        (r.2 = some ⟨this, name⟩ ∧ Lists F T key this a (inserted ++ [⟨this, name⟩]) v') := by
  refine Course.ite (fun _ => Course.ret (Or.inl ⟨rfl, h⟩)) fun hdot => ?_
  refine Course.ite (fun _ => Course.ret (Or.inl ⟨rfl, h⟩)) fun hdots => ?_
  obtain ⟨x, hx⟩ := (hname.resolve_left hdot).resolve_left hdots
  have hinsert : Course F req n v (PathNodeFs.insert this name) fun r v' =>
      (r.2 = false ∧ Lists F T key this a inserted v') ∨
        (r.2 = true ∧ Lists F T key this a (inserted ++ [⟨this, name⟩]) v') :=
    Course.insert (fun _ _ => Or.inl ⟨rfl, h⟩) fun k ns₁ id t' hfree hkey hins =>
      Or.inr ⟨rfl, h.made hx hfree hkey hins⟩
  refine hinsert.bind ?_
  rintro ⟨id, new⟩ v' (⟨rfl, h'⟩ | ⟨rfl, h'⟩)
  · exact Course.ret (Or.inl ⟨rfl, h'⟩)
  · exact Course.ret (Or.inr ⟨rfl, h'⟩)

end Lists

/-- A sink of the runtime: it passes the instructions of callbacks on, and its own work keeps what
calm sections keep. -/
structure SinkGuided (F : TreeFilesystem P) (req : Request) (n : ℕ)
    (h : (i : DirInstr (PathNodeFs.sig P) D) → τ → RtProg (PathNodeFs.sig P) (i.Resp × τ)) :
    Prop where
  fs : ∀ i acc, h (.fs i) acc = Runtime.sect (.fs i) >>= fun r => .ret (r, acc)
  add : ∀ {I : Scene P → Prop}, Steadfast I → ∀ name id data nextOffset acc,
    Guided F req n I (h (.add name id data nextOffset) acc)

section Emission

variable {h : (i : DirInstr (PathNodeFs.sig P) D) → τ → RtProg (PathNodeFs.sig P) (i.Resp × τ)}
  {key : ℕ} {this parent : NodeId}

/-- A callback inside a directory callback leaves the sink alone. -/
lemma guarantees_inDir
    (hfs : ∀ i acc, h (.fs i) acc = Runtime.sect (.fs i) >>= fun r => .ret (r, acc))
    {p : PathNodeFs.Callback P α} {f : α → PathNodeFs.DirCallback P D β} {acc : τ}
    {s : RtState (PathNodeFs.sig P)} {Q : β × τ → RtState (PathNodeFs.sig P) → Prop}
    {Q' : α → Scene P → Prop} (hp : Course F req n (scene s) p Q')
    (hf : ∀ a s', Q' a (scene s') →
      (service (pathNodeFs P)).Guarantees (HandsOver F req) n s' ((f a).handle h acc) Q) :
    (service (pathNodeFs P)).Guarantees (HandsOver F req) n s
      ((FsProg.inDir p >>= f).handle h acc) Q := by
  refine Eq.mpr (congrArg (fun q =>
    (service (pathNodeFs P)).Guarantees (HandsOver F req) n s q Q) (handle_inDir hfs p f acc)) ?_
  exact (hp s rfl).bind hf

/-- Every entry that the inner filesystem emits keeps the listing at work. -/
lemma Lists.emitAll {T : ObjectTree F.Obj Name} {a : F.Obj} (hok : SinkGuided F req n h)
    (listing : Listing D) (inserted : List Dentry) (acc : τ)
    (hemits : listing.Emits fun name =>
      name = Name.dot ∨ name = Name.dotDot ∨ ∃ x, T.child a name = some x)
    (s : RtState (PathNodeFs.sig P)) (hl : Lists F T key this a inserted (scene s)) :
    (service (pathNodeFs P)).Guarantees (HandsOver F req) n s
      ((PathNodeFs.emitAll this parent listing inserted).handle h acc)
      fun r s' => Lists F T key this a r.1.2 (scene s') := by
  induction listing generalizing inserted acc s with
  | finish result => exact hl
  | emit name data nextOffset next ih =>
    obtain ⟨hname, hnext⟩ := hemits
    refine guarantees_inDir hok.fs (hl.enumerate parent hname) ?_
    rintro ⟨id, dentry⟩ s₁ (⟨rfl, hl₁⟩ | ⟨rfl, hl₁⟩)
    · refine Guarantees.bind (hok.add steadfast name id data nextOffset acc s₁ hl₁) ?_
      rintro ⟨accepted, acc'⟩ s₂ hl₂
      exact ih accepted inserted acc' (hnext accepted) s₂ hl₂
    · refine Guarantees.bind (hok.add steadfast name id data nextOffset acc s₁ hl₁) ?_
      rintro ⟨accepted, acc'⟩ s₂ hl₂
      cases accepted with
      | true => exact ih true _ acc' (hnext true) s₂ hl₂
      | false =>
        refine guarantees_inDir hok.fs (hl₂.removeDentry (by simp)) ?_
        intro _ s₃ hl₃
        refine ih false inserted acc' (hnext false) s₃ (hl₃.fewer fun d hd => ?_)
        exact List.mem_append_left _ hd

/-- `readdir` and `readdirplus` with a sink of the runtime. -/
lemma Kept.listDir (hok : SinkGuided F req n h) (node : PathNode)
    {list : Path → PathNodeFs.Callback P (Listing D)}
    (hlist : ∀ v p, RepresentsTree F v → v.ns.pathFor this = some (some p) →
      Course F req n v (list p) fun listing v' => ∃ g, v' = { v with inner := g } ∧ F.Valid g ∧
        F.tree g = F.tree v.inner ∧ listing.Emits fun name => name = Name.dot ∨
          name = Name.dotDot ∨ ∃ a x, (F.tree v.inner).resolve p = some a ∧
            (F.tree v.inner).child a name = some x)
    (acc : τ) {s : RtState (PathNodeFs.sig P)} (hs : Kept F (KeyOf node.key this) (scene s)) :
    (service (pathNodeFs P)).Guarantees (HandsOver F req) n s
      ((PathNodeFs.listDir node this parent list).handle h acc)
      fun _ s' => Kept F (KeyOf node.key this) (scene s') := by
  have hunlock : ∀ {v}, Kept F (KeyOf node.key this) v →
      Course F req n v (PathNodeFs.own .readUnlock)
        fun _ v' => Kept F (KeyOf node.key this) v' :=
    fun hv => hv.quiet Effect.readUnlock (Prog.performs_perform trivial)
  refine guarantees_inDir hok.fs
    (hs.quiet Effect.readLock (Prog.performs_perform trivial)) ?_
  intro _ s₁ hs₁
  refine guarantees_inDir hok.fs (Course.nodePath_for node hs₁.names) ?_
  rintro path s₂ ⟨hs₂, hpath⟩
  rw [← hs₂] at hs₁ hpath
  cases path with
  | none =>
    refine guarantees_inDir hok.fs (hunlock hs₁) ?_
    exact fun _ s₃ hs₃ => hs₃
  | some p =>
    refine guarantees_inDir hok.fs (hlist _ p hs₁.represents hpath) ?_
    rintro listing s₃ ⟨g, hs₃, hvalid, htree, hemits⟩
    have hrep := hs₁.represents.answered hvalid htree
    obtain ⟨a, ha, hresolve⟩ := hs₁.represents.resolve (Namespace.pathOf_of_pathFor hpath)
    have hplaced := Namespace.Placed.of_pathFor hrep.rooted.named hpath
    have hl : Lists F (F.tree (scene s₂).inner) node.key this a [] (scene s₃) := by
      rw [hs₃]
      exact ⟨hrep, ⟨hrep.rooted, hplaced, fun _ hd => absurd hd List.not_mem_nil⟩, ha, htree,
        hs₁.names⟩
    have hnames : listing.Emits fun name => name = Name.dot ∨ name = Name.dotDot ∨
        ∃ x, (F.tree (scene s₂).inner).child a name = some x := by
      refine hemits.mono ?_
      rintro name (hdot | hdots | ⟨b, x, hb, hx⟩)
      · exact Or.inl hdot
      · exact Or.inr (Or.inl hdots)
      · obtain rfl := Option.some.inj (hresolve.symm.trans hb)
        exact Or.inr (Or.inr ⟨x, hx⟩)
    refine Eq.mpr (congrArg (fun q =>
      (service (pathNodeFs P)).Guarantees (HandsOver F req) n s₃ q _)
      (Prog.handle_bind h _ _ acc)) ?_
    refine Guarantees.bind (Lists.emitAll hok listing [] acc hnames s₃ hl) ?_
    rintro ⟨⟨result, inserted⟩, acc'⟩ s₄ hl₄
    refine guarantees_inDir hok.fs (hl₄.undo result) ?_
    intro _ s₅ hs₅
    refine guarantees_inDir hok.fs (hunlock hs₅) ?_
    exact fun _ s₆ hs₆ => hs₆

end Emission

/-- A listing within the scopes of its directory and its handle. -/
lemma guided_scopes {ino fh : ℕ}
    {body : NodeRef (pathNodeFs P).Node → NodeId → (pathNodeFs P).Payload .dir →
      RtProg (pathNodeFs P).toFsSig (Fallible α)}
    {scope : NodeRef (pathNodeFs P).Node → Option NodeId →
      RtProg (pathNodeFs P).toFsSig (Fallible α)}
    (hnone : ∀ node, scope node none = .ret (fail .ENOENT))
    (hsome : ∀ node parent, scope node (some parent) = withHandle .dir ino fh (body node parent))
    (hbody : ∀ node parent handle, Guided F req n
      (Kept F (KeyOf (PathNode.key node.record.payload) ino)) (body node parent handle)) :
    Guided F req n (RepresentsTree F)
      (withNode ino fun node => Runtime.sect (.parentOf ino) >>= scope node) := by
  refine guided_withNode fun node => ?_
  refine Kept.steadfast.framed.bind (Kept.steadfast.framed.sect (by simp)) fun parent => ?_
  cases parent with
  | none =>
    rw [hnone]
    exact Kept.steadfast.framed.ret _
  | some parent =>
    rw [hsome]
    exact Kept.steadfast.framed.withHandle fun handle => hbody node parent handle

lemma guided_readdir (ino fh offset : ℕ) (sink : Sink DirEntry) (caller : Caller) :
    Guided F (.readdir ino fh offset sink caller) n (RepresentsTree F)
      (Runtime.readdir (pathNodeFs P) ino fh offset sink caller) := by
  refine guided_scopes (fun _ => rfl) (fun _ _ => rfl) ?_
  intro node parent handle s hs
  refine Guarantees.bind (Kept.listDir ⟨fun _ _ => rfl, ?_⟩ node.record.payload ?_ [] hs) ?_
  · intro I hI name id kind nextOffset offered
    exact hI.framed.ret _
  · intro v p h hp
    refine Course.mono (h.call (c := .readdir p handle offset caller) (List.forall_mem_nil _)
      ⟨hp, trivial⟩) ?_
    rintro listing _ ⟨g, rfl, hvalid, htree, hemits⟩
    exact ⟨g, rfl, hvalid, htree, hemits⟩
  · exact fun _ s' h => h

lemma guided_readdirplus (ino fh offset : ℕ) (sink : Sink PlusEntry) (caller : Caller) :
    Guided F (.readdirplus ino fh offset sink caller) n (RepresentsTree F)
      (Runtime.readdirplus (pathNodeFs P) ino fh offset sink caller) := by
  refine guided_scopes (fun _ => rfl) (fun _ _ => rfl) ?_
  intro node parent handle s hs
  refine Guarantees.bind
    (Kept.listDir ⟨fun _ _ => rfl, ?_⟩ node.record.payload ?_ ({} : Accounting) hs) ?_
  · intro I hI name id attr nextOffset acc
    exact hI.framed.accounting sink acc name id attr nextOffset
  · intro v p h hp
    refine Course.mono (h.call (c := .readdirplus p handle offset caller) (List.forall_mem_nil _)
      ⟨hp, trivial⟩) ?_
    rintro listing _ ⟨g, rfl, hvalid, htree, hemits⟩
    exact ⟨g, rfl, hvalid, htree, hemits⟩
  · rintro ⟨r, acc⟩ s' hs'
    have hframed : Framed (pathNodeFs P) (Guided F (.readdirplus ino fh offset sink caller) n
        (Kept F (KeyOf (PathNode.key node.record.payload) ino))) := Kept.steadfast.framed
    match r with
    | .ok _ => exact hs'
    | .error (.errno _) =>
      exact (hframed.bind (hframed.forgetAll acc.accepted) fun _ => hframed.ret _) s' hs'
    | .error .panic =>
      exact (hframed.bind (hframed.sect (by simp)) fun _ => hframed.ret _) s' hs'

/-! ## Requests and runs -/

section Requests

/-- `open` and `opendir`. -/
lemma guided_openNode (k : HandleKind) (ino : ℕ) (flags : ℤ) (caller : Caller) :
    Guided F (.openNode k ino flags caller) n (RepresentsTree F)
      (Runtime.openNode (pathNodeFs P) k ino flags caller) := by
  refine guided_withNode fun node => ?_
  have hframed : Framed (pathNodeFs P) (Guided F (.openNode k ino flags caller) n
      (Kept F (KeyOf (PathNode.key node.record.payload) ino))) := Kept.steadfast.framed
  refine hframed.bind (Course.guided fun v h => ?_) fun result => hframed.onOk fun opened => ?_
  · exact h.withPath (fun _ hkey => hkey) fun p hp =>
      h.ask (c := .openNode k p flags caller) (List.forall_mem_nil _) hp fun _ _ _ hT => hT
  · refine hframed.bind (hframed.sect (by simp)) fun live => ?_
    cases live with
    | true => exact hframed.bind (hframed.sect (by simp)) fun _ => hframed.ret _
    | false => exact hframed.bind (hframed.sect (by simp)) fun _ => hframed.ret _

/-- `release` and `releasedir`. -/
lemma guided_release (k : HandleKind) (ino fh : ℕ) (caller : Caller) :
    Guided F (.release k ino fh caller) n (RepresentsTree F)
      (Runtime.release (pathNodeFs P) k ino fh caller) := by
  have hrep : Framed (pathNodeFs P) (Guided F (.release k ino fh caller) n (RepresentsTree F)) :=
    steadfast_representsTree.framed
  refine hrep.bind (hrep.sect (by simp)) fun record => ?_
  cases record with
  | none => exact hrep.ret _
  | some record =>
    refine hrep.bind (guided_withNode fun node => ?_)
      fun _ => hrep.bind (hrep.sect (by simp)) fun _ => hrep.ret _
    have hframed : Framed (pathNodeFs P) (Guided F (.release k ino fh caller) n
        (Kept F (KeyOf (PathNode.key node.record.payload) ino))) := Kept.steadfast.framed
    refine hframed.bind (hframed.sect (by simp)) fun _ => hframed.bind ?_ fun handle =>
      Course.guided fun v h => h.pathThen (fun _ hkey => hkey) fun path hpath =>
        h.ask (c := .release k path handle caller) (List.forall_mem_nil _) (hpath [])
          fun _ _ _ hT => hT
    refine hframed.bind (hframed.sect (by simp)) fun drained => ?_
    cases drained with
    | true => exact hframed.sect (by simp)
    | false => exact hframed.bind (hframed.sect (by simp)) fun _ => hframed.sect (by simp)

/-- The entry of a node that got its name before. -/
lemma guided_entered {d : Dentry} {id : NodeId} {caller : Caller}
    (hreq : ∀ ns (c : PathCall P.Payload), req.subjects ns c = d.subjects ns c) :
    Guided F req n (Kept F fun ns => ns.find d = some id)
      (entryFor (pathNodeFs P) id caller) := by
  refine guided_entryFor fun ns path hfind => ⟨[], ?_⟩
  rw [hreq]
  change (ns.find d).toList = [id]
  rw [hfind]
  rfl

lemma guided_lookup (parent : ℕ) {name : Name} (hname : name.Ordinary) (caller : Caller) :
    Guided F (.lookup parent name caller) n (RepresentsTree F)
      (Runtime.lookup (pathNodeFs P) parent name caller) := by
  intro s hs
  refine Guarantees.bind (hs.lookup parent hname caller s rfl) ?_
  rintro r s₁ ⟨hs₁, hfound⟩
  match r, hfound with
  | .error e, _ => exact hs₁
  | .ok none, _ => exact hs₁
  | .ok (some id), hfound =>
    refine Guarantees.bind (guided_entered (fun _ _ => rfl) s₁ ⟨hs₁, hfound id rfl⟩) ?_
    exact fun _ _ h => h.represents

/-- `mknod`, `mkdir`, `symlink` and `link`. -/
lemma guided_makeOp (op : MakeOp) (hnames : ∀ name ∈ op.names, name.Ordinary) (caller : Caller) :
    Guided F (.makeOp op caller) n (RepresentsTree F)
      (Runtime.makeOp (pathNodeFs P) op caller) := by
  -- the name is entered first, and then its node is replied
  have hmade : ∀ {d : Dentry} (s : RtState (pathNodeFs P).toFsSig), RepresentsTree F (scene s) →
      (∀ ns (c : PathCall P.Payload), Request.subjects (.makeOp op caller) ns c = d.subjects ns c) →
      Course F (.makeOp op caller) n (scene s) (PathNodeFs.makeOp op caller) (fun r v' =>
        RepresentsTree F v' ∧ ∀ id, r = .ok id → v'.ns.find d = some id) →
      (service (pathNodeFs P)).Guarantees (HandsOver F (.makeOp op caller)) n s
        (Runtime.makeOp (pathNodeFs P) op caller) fun _ s' => RepresentsTree F (scene s') := by
    intro d s hs hreq hcourse
    refine Guarantees.bind (hcourse s rfl) ?_
    rintro r s₁ ⟨hs₁, hfound⟩
    match r, hfound with
    | .error e, _ => exact hs₁
    | .ok id, hfound =>
      refine (guided_entered hreq s₁ ⟨hs₁, hfound id rfl⟩).mono ?_
      exact fun _ _ h => h.represents
  intro s hs
  cases op with
  | mknod parent name mode rdev umask =>
    refine hmade s hs (fun _ _ => rfl) (hs.makeNode parent False fun p hp => ?_)
    exact hs.call (c := .mknod p name mode rdev umask caller) hnames ⟨hp, trivial⟩
  | mkdir parent name mode umask =>
    refine hmade s hs (fun _ _ => rfl) (hs.makeNode parent True fun p hp => ?_)
    exact hs.call (c := .mkdir p name mode umask caller) hnames ⟨hp, trivial⟩
  | symlink parent name target =>
    refine hmade s hs (fun _ _ => rfl) (hs.makeNode parent False fun p hp => ?_)
    exact hs.call (c := .symlink p name target caller) hnames ⟨hp, trivial⟩
  | link id newparent newname =>
    refine Guarantees.bind
      (hs.link id newparent (List.forall_mem_singleton.mp hnames) caller s rfl) ?_
    rintro r s₁ ⟨hs₁, hsame⟩
    match r, hsame with
    | .error e, _ => exact hs₁
    | .ok i, hsame =>
      obtain rfl := hsame i rfl
      refine Guarantees.mono (guided_entryFor (J := fun _ => True)
        (fun _ _ _ => ⟨[newparent], rfl⟩) s₁ ⟨hs₁, trivial⟩) ?_
      exact fun _ _ h => h.represents

/-- `unlink`, `rmdir` and `rename`. -/
lemma guided_treeOp (op : TreeOp) (caller : Caller) {s : RtState (pathNodeFs P).toFsSig}
    (hs : RepresentsTree F (scene s)) (hproper : Proper (.treeOp op caller) s) :
    (service (pathNodeFs P)).Guarantees (HandsOver F (.treeOp op caller)) n s
      (call (σ := PathNodeFs.sig P) (PathNodeFs.treeOp op caller))
      fun _ s' => RepresentsTree F (scene s') := by
  cases op with
  | unlink parent name =>
    exact hs.removeEntry parent (List.forall_mem_singleton.mp hproper.ordinary) false caller
      (fun _ _ => rfl) s rfl
  | rmdir parent name =>
    exact hs.removeEntry parent (List.forall_mem_singleton.mp hproper.ordinary) true caller
      (fun _ _ => rfl) s rfl
  | rename parent name newparent newname flags =>
    obtain ⟨hname, hnew⟩ := List.forall_mem_cons.mp hproper.ordinary
    obtain ⟨source, hold⟩ := hproper.source _ rfl
    exact hs.rename parent hname newparent (List.forall_mem_singleton.mp hnew) flags caller hold
      s rfl
  | copyFileRange => exact hs

lemma guided_create (parent : ℕ) {name : Name} (hname : name.Ordinary) (mode umask : ℕ) (flags : ℤ)
    (caller : Caller) :
    Guided F (.create parent name mode umask flags caller) n (RepresentsTree F)
      (Runtime.create (pathNodeFs P) parent name mode umask flags caller) := by
  have hframed : Framed (pathNodeFs P)
      (Guided F (.create parent name mode umask flags caller) n (RepresentsTree F)) :=
    steadfast_representsTree.framed
  intro s hs
  refine Guarantees.bind (hs.create parent hname mode umask flags caller s rfl) ?_
  rintro r s₁ ⟨hs₁, hfound⟩
  match r, hfound with
  | .error e, _ => exact hs₁
  | .ok (id, opened), hfound =>
    refine Guarantees.bind (guided_entered (fun _ _ => rfl) s₁ ⟨hs₁, hfound _ rfl⟩) ?_
    intro entry s₂ hs₂
    cases entry with
    | error e =>
      exact hframed.bind (hframed.sect (by simp)) (fun _ => hframed.ret _) s₂ hs₂.represents
    | ok entry =>
      refine (hframed.bind (hframed.sect (by simp)) fun live => ?_) s₂ hs₂.represents
      cases live with
      | true => exact hframed.bind (hframed.sect (by simp)) fun _ => hframed.ret _
      | false =>
        exact hframed.bind (hframed.sect (by simp)) fun _ =>
          hframed.bind (hframed.sect (by simp)) fun _ => hframed.ret _

/-- A proper request keeps the tree represented. -/
lemma guarantees_serve (req : Request) {s : RtState (pathNodeFs P).toFsSig}
    (hs : RepresentsTree F (scene s)) (hproper : Proper req s) :
    (service (pathNodeFs P)).Guarantees (HandsOver F req) n s (serve (pathNodeFs P) req)
      fun _ s' => RepresentsTree F (scene s') := by
  have hframed : Framed (pathNodeFs P) (Guided F req n (RepresentsTree F)) :=
    steadfast_representsTree.framed
  -- the reply is made of what the request has returned
  have hreply : ∀ {β : Type} {p : RtProg (pathNodeFs P).toFsSig β} {f : β → Fallible Reply},
      Guided F req n (RepresentsTree F) p →
      (service (pathNodeFs P)).Guarantees (HandsOver F req) n s (p >>= fun b => .ret (f b))
        fun _ s' => RepresentsTree F (scene s') :=
    fun hp => hframed.bind hp (fun _ => hframed.ret _) s hs
  cases req with
  | populate => exact hs
  | forget ino nlookup => exact hreply (hframed.sect (by simp))
  | statfs caller =>
    refine hreply (Course.guided fun v hv => Course.reading ?_)
    refine Course.mono (hv.call (c := .statfs Path.root caller) (List.forall_mem_nil _)
      ⟨Namespace.pathFor_eq_some_iff.mpr .root, trivial⟩) ?_
    rintro _ _ ⟨g, rfl, hvalid, htree⟩
    exact hv.answered hvalid htree
  | getattr ino fh caller =>
    refine hreply (guided_withNode fun node => Kept.steadfast.framed.withOptionalFile fun handle =>
      Course.guided fun v hv => hv.pathThen (fun _ hkey => hkey) fun path hpath => ?_)
    exact hv.ask (c := .getattr path handle caller) (List.forall_mem_nil _) (hpath [])
      fun _ _ _ hT => hT
  | setattr ino fh set caller =>
    refine hreply (guided_withNode fun node => Kept.steadfast.framed.withOptionalFile fun handle =>
      Course.guided fun v hv => hv.pathThen (fun _ hkey => hkey) fun path hpath => ?_)
    exact hv.ask (c := .setattr path handle set caller) (List.forall_mem_nil _) (hpath [])
      fun _ _ _ hT => hT
  | nodeOp op ino caller =>
    refine hreply (guided_withNode fun node => Course.guided fun v hv =>
      hv.withPath (fun _ hkey => hkey) fun p hp => ?_)
    exact hv.ask (c := .nodeOp op p caller) (List.forall_mem_nil _) hp fun _ _ _ hT => hT
  | fileOp op ino fh caller =>
    refine hreply (guided_withNode fun node => Kept.steadfast.framed.withHandle fun handle =>
      Course.guided fun v hv => hv.pathThen (fun _ hkey => hkey) fun path hpath => ?_)
    exact hv.ask (c := .fileOp op path handle caller) (List.forall_mem_nil _) (hpath [])
      fun _ _ _ hT => hT
  | fsyncdir ino fh datasync caller =>
    refine hreply (guided_withNode fun node => Kept.steadfast.framed.withHandle fun handle =>
      Course.guided fun v hv => hv.pathThen (fun _ hkey => hkey) fun path hpath => ?_)
    exact hv.ask (c := .fsyncdir path handle datasync caller) (List.forall_mem_nil _) (hpath [])
      fun _ _ _ hT => hT
  | openNode k ino flags caller => exact hreply (guided_openNode k ino flags caller)
  | release k ino fh caller => exact hreply (guided_release k ino fh caller)
  | readdir ino fh offset sink caller => exact hreply (guided_readdir ino fh offset sink caller)
  | readdirplus ino fh offset sink caller =>
    exact hreply (guided_readdirplus ino fh offset sink caller)
  | lookup parent name caller =>
    exact hreply (guided_lookup parent (List.forall_mem_singleton.mp hproper.ordinary) caller)
  | makeOp op caller => exact hreply (guided_makeOp op hproper.ordinary caller)
  | treeOp op caller => exact Guarantees.bind (guided_treeOp op caller hs hproper) fun _ _ h => h
  | create parent name mode umask flags caller =>
    exact hreply (guided_create parent (List.forall_mem_singleton.mp hproper.ordinary) mode umask
      flags caller)

end Requests

/-- At the start the root stands for the root, and no name is bound. -/
lemma representsTree_new (F : TreeFilesystem P) :
    RepresentsTree F (scene (Runtime.new (pathNodeFs P))) where
  rooted := rooted_new
  valid := F.init
  root := rfl
  rootKey := by
    intro sl hsl
    have hslot : (Runtime.new (pathNodeFs P)).table.slot NodeId.ROOT =
        some (Runtime.rootSlot (pathNodeFs P)) := (slot_set _ _ _ _).trans (if_pos rfl)
    obtain rfl := Option.some.inj (hsl.symm.trans hslot)
    rfl
  bound := by
    intro d i hd
    have hfind : Namespace.new.find d = none := rfl
    change Namespace.new.find d = some i at hd
    rw [hfind] at hd
    cases hd

/-- The names and the nodes of the adapter agree with the tree of the inner filesystem. -/
structure Mirrors (F : TreeFilesystem P) (v : Scene P) : Prop where
  /-- A name is bound to a node of the object that has the name. -/
  names : ∀ d i, v.ns.find d = some i → ∃ a x, Stands F v d.parent a ∧ Stands F v i x ∧
    (F.tree v.inner).child a d.name = some x
  /-- Every path leads to the object that its node was inserted for. -/
  paths : ∀ i p, v.ns.pathFor i = some (some p) →
    ∃ o, Stands F v i o ∧ (F.tree v.inner).resolve p = some o
  /-- The root and the nodes with a name have a path, and no other node has. -/
  placed : ∀ i, ∃ r, v.ns.pathFor i = some r ∧
    (r.isSome ↔ i = NodeId.ROOT ∨ ∃ d, v.ns.find d = some i)

lemma RepresentsTree.mirrors {v : Scene P} (h : RepresentsTree F v) : Mirrors F v where
  names := h.bound
  paths := fun _ _ hp => h.resolve (Namespace.pathOf_of_pathFor hp)
  placed := h.pathFor_isSome

/-- In every sequential run over a tree filesystem, with ordinary names and bound names to be moved,
the paths that are handed to the inner filesystem lead to the objects that their nodes were inserted
for, and between requests the names agree with the tree. -/
theorem refines_objects (F : TreeFilesystem P) {c : Config (service (pathNodeFs P))}
    (hr : Run (oneAtATimeIf Proper) (start (pathNodeFs P)) c) :
    (∀ n req call, c.At n req (PathInstr.rt (.inner call)) →
      Matched (Handed F (scene c.state)) call.paths (req.subjects c.state.fs.ns call)) ∧
    (c.Quiet → Mirrors F (scene c.state)) := by
  have hall := @sequential_guarantees (service (pathNodeFs P)) (fun req => HandsOver F req)
    (fun s : RtState (pathNodeFs P).toFsSig => RepresentsTree F (scene s)) Proper
    (start (pathNodeFs P)) c (fun t ht => absurd ht List.not_mem_nil) (representsTree_new F) ?_ hr
  · exact ⟨fun n req call hat => hall.2 n req _ hat, fun hq => (hall.1 hq).mirrors⟩
  · intro n req s₀ s h hproper hs
    obtain rfl := Option.some.inj hs
    have hissue : RepresentsTree F (scene (issue n req s₀)) ∧ Proper req (issue n req s₀) := by
      cases req with
      | _ => exact ⟨h, hproper.ordinary, hproper.source⟩
    exact (guarantees_serve req hissue.1 hissue.2).mono fun _ _ h' => h'

/-- A directory was moved with a file in it, and an open file was overwritten: the path of the first
file leads to it, and the second one has no path. -/
theorem refines_objects_moved :
    (Mirrors TreeSample.filesystem (scene (TreeSample.after TreeSample.moved).state) ∧
      (TreeSample.after TreeSample.moved).state.fs.ns.pathFor 4 = some none) ∧
    Handed TreeSample.filesystem (scene (TreeSample.after TreeSample.asked).state)
      [47, 101, 47, 120] 3 := by
  have hmoved := refines_objects TreeSample.filesystem
    (TreeSample.run_after TreeSample.moved (by decide +kernel))
  have hasked := refines_objects TreeSample.filesystem
    (TreeSample.run_after TreeSample.asked (by decide +kernel))
  obtain ⟨caller, caller', hat⟩ := TreeSample.at_of_asksFor
    (TreeSample.after TreeSample.asked) 13 3 [47, 101, 47, 120] (by decide +kernel)
  exact ⟨⟨hmoved.2 (by decide +kernel), by decide +kernel⟩, (hasked.1 _ _ _ hat).1⟩

end TypedFuse
