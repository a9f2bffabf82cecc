import TypedFuse.Path.Ascent
import TypedFuse.Path.Keeping
import TypedFuse.Path.PathSample

/-!
# The recursion of `path_for` ends

In a sequential run over an inner filesystem that does not move a directory below itself, following
first aliases ends, whatever else the inner filesystem answers, as long as it does not link the
nodes that ever serve as the directory of a name, and no name begins with a separator.

The nodes that serve as directories are told apart by their keys, since a number can be given out
again to another node.  What a run keeps is `Grounded`.
-/

namespace TypedFuse

open Conc Conc.Service NodeTable Relation TypedFuse.Runtime

variable {P : PathFilesystem} {parents : Set PathNode}

/-! ## The conditions -/

/-- The inner filesystem rejects a rename into the moved directory or below it. -/
def RejectsSubtree (P : PathFilesystem) : Prop :=
  ∀ oldparent name newparent newname caller ch s r s',
    P.call (.rename oldparent name newparent newname caller) ch s = some (r, s') →
    Path.Under (oldparent.push name) newparent → ∃ e, r = .error e

/-- The nodes that serve as the directory of a name are among `parents`, and no name begins with a
separator. -/
def Parented (parents : Set PathNode) (ns : Namespace) (t : PathTable P) : Prop :=
  ∀ i d, d ∈ ns.names i → d.name.Relative ∧
    ∀ sl, t.slot d.parent = some sl → sl.record.payload ∈ parents

/-- The condition on the steps of a request: the adapter gets to give a node another name only if
the inner filesystem has accepted `link`, which it rejects on the nodes `parents`. -/
def rejectsLinks (parents : Set PathNode) (req : Request) (i : RtInstr (PathNodeFs.sig P))
    (s : RtState (PathNodeFs.sig P)) : Prop :=
  match req, i with
  | .makeOp (.link id _ _) _, .fs (.own i) =>
    match (i : PathInstr P) with
    | .addAlias _ _ => ∀ sl, s.table.slot id = some sl → sl.record.payload ∉ parents
    | _ => True
  | _, _ => True

/-- Both conditions on the steps that bind names. -/
def grounding (parents : Set PathNode) (req : Request) (i : RtInstr (PathNodeFs.sig P))
    (s : RtState (PathNodeFs.sig P)) : Prop :=
  rejectsLinks parents req i s ∧
    match i with
    | .fs (.own i) =>
      match (i : PathInstr P) with
      | .record key id d => Parented parents (s.fs.ns.record key id d) s.table
      | .addAlias id d => Parented parents (s.fs.ns.addAlias id d) s.table
      | _ => True
    | _ => True

lemma parented_of_recordable {req : Request} {d : Dentry} {ns : Namespace} {t : PathTable P}
    (h : Recordable (grounding parents req) d ns t) : Parented parents ns t := by
  obtain ⟨key, id, _, rfl, s, rfl, rfl, hok⟩ := h
  exact hok.2

lemma parented_of_allowed {req : Request} {id : NodeId} {d : Dentry} {ns : Namespace}
    {t : PathTable P}
    (h : Allowed (grounding parents req) ns t
      (.fs (FsInstr.own (σ := PathNodeFs.sig P) (.addAlias id d)))) :
    Parented parents (ns.addAlias id d) t := by
  obtain ⟨s, rfl, rfl, hok⟩ := h
  exact hok.2

lemma linked_of_allowed {id id' newparent : NodeId} {newname : Name} {caller : Caller} {d : Dentry}
    {ns : Namespace} {t : PathTable P}
    (h : Allowed (grounding parents (.makeOp (.link id newparent newname) caller)) ns t
      (.fs (FsInstr.own (σ := PathNodeFs.sig P) (.addAlias id' d)))) :
    ∀ sl, t.slot id = some sl → sl.record.payload ∉ parents := by
  obtain ⟨s, rfl, rfl, hok⟩ := h
  exact hok.1

/-! ## What a run keeps -/

/-- The numbers that do not stand for a live node outside `parents`. -/
def standing (parents : Set PathNode) (t : PathTable P) : Set NodeId :=
  {i | ∀ sl, t.slot i = some sl → sl.record.payload ∈ parents}

/-- The names and the inode table agree, and all ascents end. -/
structure Grounded (parents : Set PathNode) (ns : Namespace) (t : PathTable P) : Prop where
  backed : Backed False ns t
  ascending : Ascending (standing parents t) ns

namespace Grounded

variable {ns ns' : Namespace} {t t' : PathTable P} {d old new : Dentry} {id source : NodeId}
  {p : Path}

/-- Every live node was there before, as the same node. -/
lemma of_origin (hb : Backed False ns t') (h : Ascending (standing parents t) ns)
    (horigin : ∀ i sl', t'.slot i = some sl' →
      ∃ sl, t.slot i = some sl ∧ sl'.record = sl.record) :
    Grounded parents ns t' := by
  refine ⟨hb, ?_, ?_, h.ends⟩
  · intro i d hd
    obtain ⟨hmem, hrel⟩ := h.inside i d hd
    refine ⟨?_, hrel⟩
    intro sl' hsl'
    obtain ⟨sl, hsl, hrec⟩ := horigin _ sl' hsl'
    rw [hrec]
    exact hmem sl hsl
  · intro i hi
    cases hsl' : t'.slot i with
    | none =>
      rw [(hb.dead hsl').1]
      exact Nat.zero_le 1
    | some sl' =>
      refine h.single i ?_
      intro sl hsl
      obtain ⟨sl₀, hsl₀, hrec⟩ := horigin i sl' hsl'
      obtain rfl : sl₀ = sl := Option.some.inj (hsl₀.symm.trans hsl)
      rw [← hrec]
      exact hi sl' hsl'

lemma calm (h : Grounded parents ns t) (hwf : t'.WF) (hcalm : Calm t t') :
    Grounded parents ns t' := by
  refine of_origin (h.backed.calm hwf hcalm) h.ascending ?_
  intro i sl' hsl'
  obtain ⟨sl, hsl, hrec, _⟩ := hcalm.origin i sl' hsl'
  exact ⟨sl, hsl, hrec⟩

/-- Making a node for a free name in a directory with a path. -/
lemma made (h : Grounded parents ns t) (hp : ns.PathOf d.parent p) (hfree : ns.find d = none)
    {key : ℕ} {ns₁ : Namespace} (hkey : ns.takeKey = some (key, ns₁))
    (hins : t.insert (⟨key⟩ : PathNode) d.parent = some (id, t'))
    (hparented : Parented parents (ns₁.record key id d) t') :
    Grounded parents (ns₁.record key id d) t' := by
  have hdead := h.backed.wf.insert_dead hins
  obtain ⟨hnone, hroot⟩ := h.backed.dead hdead
  obtain ⟨gen, hslot⟩ := slot_insert hins
  have hsame : ∀ i, i ≠ id → t'.slot i = t.slot i := by
    intro i hi
    rw [hslot, if_neg hi]
  have hnames : ∀ i, (ns₁.record key id d).names i =
      if i = id then insert d (ns.names id) else ns.names i := Namespace.names_recorded hkey
  have hd : d ∈ (ns₁.record key id d).names id := by
    rw [hnames, if_pos rfl]
    exact Finset.mem_insert_self d _
  obtain ⟨hrel, hslotd⟩ := hparented id d hd
  have hmem : d.parent ∈ standing parents t := by
    intro sl hsl
    have hne : d.parent ≠ id := by
      intro he
      rw [he, hdead] at hsl
      cases hsl
    refine hslotd sl ?_
    rw [hsame _ hne]
    exact hsl
  have hascending : Ascending (standing parents t) (ns₁.record key id d) :=
    h.ascending.recorded hnone hroot hp hmem hrel hnames
  refine ⟨h.backed.made hfree hkey hins, ?_, ?_, hascending.ends⟩
  · intro i d' hd'
    exact (hparented i d' hd').symm
  · intro i hi
    refine hascending.single i ?_
    intro sl hsl
    have hne : i ≠ id := by
      rintro rfl
      rw [hdead] at hsl
      cases hsl
    exact hi sl ((hsame i hne).trans hsl)

/-- Removing a name and its link. -/
lemma removed (h : Grounded parents ns t) (hd : ns.find d = some id) :
    Grounded parents (ns.remove d).2 (t.removeLink id) :=
  of_origin (h.backed.removed hd) (h.ascending.removed hd) fun _ _ hsl' => slot_removed hsl'

/-- Linking a node in which no name was ever bound. -/
lemma linked (h : Grounded parents ns t) (hid : id = NodeId.ROOT ∨ (ns.names id).Nonempty)
    (hnot : ∀ sl, t.slot id = some sl → sl.record.payload ∉ parents)
    (hparented : Parented parents (ns.addAlias id d) t) (hadd : t.addLink id = some t') :
    Grounded parents (ns.addAlias id d) t' := by
  have hout : id ∉ standing parents t := by
    intro hin
    obtain ⟨sl, hsl⟩ := h.backed.live hid
    exact hnot sl hsl (hin sl hsl)
  have hd : d ∈ (ns.addAlias id d).names id := by
    rw [Namespace.names_addAlias, if_pos rfl]
    exact Finset.mem_insert_self d _
  obtain ⟨hrel, hmem⟩ := hparented id d hd
  have hbacked : Backed False (ns.addAlias id d) t' := h.backed.bound hid False.elim hadd
  exact of_origin hbacked (h.ascending.linked hout hmem hrel) fun _ _ hsl' =>
    slot_linked hadd hsl'

/-- Moving a name to a directory that is not below it. -/
lemma moved (h : Grounded parents ns t) (hold : ns.find old = some source)
    (hnew : ns.find new ≠ some source) {p₀ : Path} (hp₀ : ns.PathOf old.parent p₀)
    (hp : ns.PathOf new.parent p) (hunder : ¬ Path.Under (p₀.push old.name) p)
    (hparented : Parented parents (ns.move old new source) ((ns.find new).elim t t.removeLink)) :
    Grounded parents (ns.move old new source)
      (((ns.find new).elim t t.removeLink).reparent source new.parent) := by
  have hne : old ≠ new := by
    rintro rfl
    exact hnew hold
  have hin : new.parent ∈ standing parents t ∧ new.name.Relative := by
    cases htarget : ns.find new with
    | some target => exact h.ascending.inside target new (h.backed.linked.bound new target htarget)
    | none =>
      have hmem : new ∈ (ns.move old new source).names source := by
        rw [Namespace.names_move_source hne hold hnew]
        exact Finset.mem_insert_self new _
      obtain ⟨hrel, hslot⟩ := hparented source new hmem
      rw [htarget] at hslot
      exact ⟨hslot, hrel⟩
  refine of_origin (h.backed.moved hne hold) ?_ fun _ _ hsl' => slot_moved hsl'
  exact h.ascending.moved h.backed.linked.bound hold hnew hp₀ hp hunder hin.1 hin.2

end Grounded

/-! ## Linking, removing and moving names -/

section Callbacks

variable {ns : Namespace} {t : PathTable P} {n : ℕ} {req : Request}

/-- A node with a path is the root or has a name. -/
lemma Namespace.PathOf.named {i : NodeId} {p : Path} (h : ns.PathOf i p) :
    i = NodeId.ROOT ∨ (ns.names i).Nonempty := by
  by_cases hi : i = NodeId.ROOT
  · exact Or.inl hi
  · exact Or.inr (h.names_nonempty hi)

lemma grounded_link (id newparent : NodeId) (newname : Name) (caller caller' : Caller) :
    Preserves P (grounding parents (.makeOp (.link id newparent newname) caller'))
      (Grounded (P := P) parents) (PathNodeFs.link id newparent newname caller) := by
  intro n ns t h
  refine EffectIf.writing (EffectIf.withPathOf h fun source hsource => ?_)
  refine EffectIf.withPathOf h fun parent _ => ?_
  refine EffectIf.innerThen (Effect.inner _) (fun e => h) fun attr => ?_
  refine EffectIf.quiet Effect.nsLock fun _ => (EffectIf.perform (Effect.addAlias id _)).bind ?_
  rintro _ _ _ ⟨⟨rfl, rfl⟩, hok⟩
  refine EffectIf.quiet Effect.nsUnlock fun _ => (EffectIf.addLink id).bind ?_
  rintro _ _ t' ⟨rfl, hadd⟩
  have hid := (Namespace.pathOf_of_pathFor hsource).named
  exact EffectIf.ret (h.linked hid (linked_of_allowed hok) (parented_of_allowed hok) hadd)

lemma grounded_removeEntry (parent : NodeId) (name : Name) (directory : Bool) (caller : Caller) :
    Preserves P (grounding parents req) (Grounded (P := P) parents)
      (PathNodeFs.removeEntry parent name directory caller) := by
  intro n ns t h
  have hinner : ∀ p, Effect P n ns t (PathNodeFs.removeInner p name directory caller)
      fun _ ns' t' => ns' = ns ∧ t' = t := fun p => Effect.removeInner p name directory caller
  refine EffectIf.writing (EffectIf.withPathOf h fun p _ => ?_)
  refine EffectIf.innerThen (hinner p) (fun e => h) fun _ => ?_
  refine (EffectIf.of_effect (Effect.removeDentry ⟨parent, name⟩)).bind ?_
  rintro _ _ _ ⟨rfl, rfl⟩
  refine EffectIf.ret ?_
  cases hd : ns.find ⟨parent, name⟩ with
  | none =>
    rw [Namespace.remove_of_unbound hd]
    exact h
  | some id => exact h.removed hd

/-- The end of `rename`, after the inner filesystem has accepted it. -/
lemma grounded_moveDentry (h : Grounded parents ns t) {old new : Dentry} {p₀ p : Path}
    (hp₀ : ns.PathOf old.parent p₀) (hp : ns.PathOf new.parent p)
    (hunder : ¬ Path.Under (p₀.push old.name) p) :
    EffectIf P (grounding parents req) n ns t (PathNodeFs.moveDentry old new)
      fun _ ns' t' => Grounded parents ns' t' := by
  refine (EffectIf.of_effect (Effect.find old)).bind ?_
  rintro r _ _ ⟨hold, rfl, rfl⟩
  cases r with
  | none => exact EffectIf.ret h
  | some source =>
    refine (EffectIf.of_effect (Effect.find new)).bind ?_
    rintro target ns t ⟨htarget, rfl, rfl⟩
    refine EffectIf.ite (fun _ => EffectIf.ret h) fun hsame => ?_
    refine (EffectIf.of_effect (Effect.remove new)).bind ?_
    rintro replaced _ t ⟨rfl, rfl, rfl⟩
    refine (EffectIf.removeLinkOf _).bind ?_
    rintro _ _ _ ⟨rfl, rfl, _⟩
    refine (EffectIf.of_effect (Effect.remove old)).bind ?_
    rintro _ _ _ ⟨_, rfl, rfl⟩
    refine (EffectIf.perform (Effect.addAlias source new)).bind ?_
    rintro _ _ _ ⟨⟨rfl, rfl⟩, hok⟩
    refine EffectIf.of_effect ((Effect.reparent source new.parent).mono ?_)
    rintro _ _ _ ⟨rfl, rfl⟩
    have hnew : ns.find new ≠ some source := fun hn => hsame (htarget.trans hn)
    have hparented : Parented parents (ns.move old new source)
        ((ns.find new).elim t t.removeLink) := parented_of_allowed hok
    exact h.moved hold.symm hnew hp₀ hp hunder hparented

lemma grounded_rename (hP : RejectsSubtree P) (parent : NodeId) (name : Name) (newparent : NodeId)
    (newname : Name) (flags : ℕ) (caller : Caller) :
    Preserves P (grounding parents req) (Grounded (P := P) parents)
      (PathNodeFs.rename parent name newparent newname flags caller) := by
  intro n ns t h
  refine EffectIf.ite (fun _ => EffectIf.ret h) fun _ => ?_
  refine EffectIf.writing (EffectIf.withPathOf h fun p hp => ?_)
  refine EffectIf.withPathOf h fun p' hp' => ?_
  refine (EffectIf.of_effect (Effect.answered _)).bind ?_
  rintro r ns t ⟨⟨ch, f, f', hcall⟩, rfl, rfl⟩
  cases r with
  | error e => exact EffectIf.ret h
  | ok value =>
    have hunder : ¬ Path.Under (p.push name) p' := by
      intro hunder
      obtain ⟨e, he⟩ := hP _ _ _ _ _ _ _ _ _ hcall hunder
      cases he
    refine EffectIf.quiet Effect.nsLock fun _ => ?_
    have hend : EffectIf P (grounding parents req) n ns t
        (PathNodeFs.moveDentry ⟨parent, name⟩ ⟨newparent, newname⟩)
        fun _ ns' t' => Grounded parents ns' t' :=
      grounded_moveDentry h (Namespace.pathOf_of_pathFor hp) (Namespace.pathOf_of_pathFor hp')
        hunder
    refine hend.bind ?_
    intro _ ns' t' h'
    exact EffectIf.quiet Effect.nsUnlock fun _ => EffectIf.ret h'

/-- `unlink`, `rmdir` and `rename`. -/
lemma grounded_treeOp (hP : RejectsSubtree P) (op : TreeOp) (caller : Caller) :
    Preserves P (grounding parents req) (Grounded (P := P) parents)
      (PathNodeFs.treeOp op caller) := by
  cases op with
  | unlink parent name => exact grounded_removeEntry parent name false caller
  | rmdir parent name => exact grounded_removeEntry parent name true caller
  | rename parent name newparent newname flags =>
    exact grounded_rename hP parent name newparent newname flags caller
  | copyFileRange =>
    intro n ns t h
    exact EffectIf.ret h

end Callbacks

/-! ## Listings -/

/-- A listing of `this` is at work and may have to take the names `inserted` back: they are names
of `this`, which keeps its path. -/
structure Collecting (parents : Set PathNode) (this : NodeId) (inserted : List Dentry)
    (ns : Namespace) (t : PathTable P) : Prop where
  grounded : Grounded parents ns t
  path : ∃ p, ns.PathOf this p
  own : ∀ d ∈ inserted, d.parent = this

namespace Collecting

variable {this : NodeId} {inserted : List Dentry} {ns : Namespace} {t t' : PathTable P}
  {d : Dentry} {id : NodeId}

/-- Taking a name back: it is not on the way up from its directory. -/
lemma takeBack (h : Collecting parents this inserted ns t) (hd : d ∈ inserted)
    (hfind : ns.find d = some id) :
    Collecting parents this inserted (ns.remove d).2 (t.removeLink id) := by
  refine ⟨h.grounded.removed hfind, ?_, h.own⟩
  obtain ⟨p, hp⟩ := h.path
  refine ⟨p, hp.congr ?_⟩
  intro j hj hroot
  by_cases hji : j = id
  · subst hji
    have hbound := h.grounded.backed.linked.bound d j hfind
    have hparent : d.parent = this := h.own d hd
    have hmem : j ∈ standing parents t := by
      rcases hj.cases_tail with rfl | ⟨k, _, hk⟩
      · rw [← hparent]
        exact (h.grounded.ascending.inside j d hbound).1
      · obtain ⟨_, d', hd', rfl⟩ := hk
        exact (h.grounded.ascending.inside k d' (Namespace.mem_of_firstAlias hd')).1
    have hfirst := h.grounded.ascending.firstAlias_eq hmem hbound
    have hup : ns.Up j this := ⟨hroot, d, hfirst, hparent⟩
    exact absurd (TransGen.tail' hj hup) (h.grounded.ascending.ends this).not_transGen
  · refine Namespace.firstAlias_congr ?_
    rw [Namespace.names_remove hfind, if_neg hji]

/-- Making a node for a name of the directory. -/
lemma made (h : Collecting parents this inserted ns t) {name : Name}
    (hfree : ns.find ⟨this, name⟩ = none) {key : ℕ} {ns₁ : Namespace}
    (hkey : ns.takeKey = some (key, ns₁))
    (hins : t.insert (⟨key⟩ : PathNode) this = some (id, t'))
    (hparented : Parented parents (ns₁.record key id ⟨this, name⟩) t') :
    Collecting parents this (inserted ++ [⟨this, name⟩])
      (ns₁.record key id ⟨this, name⟩) t' := by
  obtain ⟨p, hp⟩ := h.path
  refine ⟨h.grounded.made hp hfree hkey hins hparented, ⟨p, hp.congr ?_⟩, ?_⟩
  · intro j hj hroot
    have hne : j ≠ id := by
      rintro rfl
      obtain ⟨q, hq⟩ := hp.above hj
      have hnames := hq.names_nonempty hroot
      rw [(h.grounded.backed.dead (h.grounded.backed.wf.insert_dead hins)).1] at hnames
      exact Finset.not_nonempty_empty hnames
    refine Namespace.firstAlias_congr ?_
    rw [Namespace.names_recorded hkey, if_neg hne]
  · intro d' hd'
    rcases List.mem_append.mp hd' with hmem | hmem
    · exact h.own d' hmem
    · rw [List.mem_singleton.mp hmem]

end Collecting

/-- Requests keep all names grounded over an inner filesystem that rejects moves of directories
below themselves. -/
lemma grounded_keeping (hP : RejectsSubtree P) (parents : Set PathNode) :
    Keeping P (grounding parents) (Grounded parents) (Collecting parents) where
  backed := fun h => h.backed
  calm := fun h hwf hcalm => h.calm hwf hcalm
  inserted := by
    intro req ns t ns' t' parent name p r h hp hins hok
    cases hins with
    | found _ => exact h
    | made hfree hkey hins =>
      exact h.made (Namespace.pathOf_of_pathFor hp) hfree hkey hins
        (parented_of_recordable (hok rfl))
  link := grounded_link
  treeOp := fun op caller _ => grounded_treeOp hP op caller
  listing := fun h hp =>
    ⟨h, ⟨_, Namespace.pathOf_of_pathFor hp⟩, fun _ hd => absurd hd List.not_mem_nil⟩
  emitted := fun h => h.grounded
  emittedCalm := fun h hwf hcalm => ⟨h.grounded.calm hwf hcalm, h.path, h.own⟩
  fewer := fun h hds => ⟨h.grounded, h.path, fun d hd => h.own d (hds d hd)⟩
  emit := fun h hfree hkey hins hok => h.made hfree hkey hins (parented_of_recordable hok)
  takeBack := fun h hd hfind => h.takeBack hd hfind

/-! ## Runs -/

/-- At the start no node has a name. -/
lemma grounded_new (parents : Set PathNode) :
    Grounded (P := P) parents Namespace.new (Runtime.new (pathNodeFs P)).table := by
  have hstart : PathInv True (Runtime.new (pathNodeFs P)) PathView.empty := pathInv_new (P := P)
  have hbacked : Backed (P := P) True Namespace.new (Runtime.new (pathNodeFs P)).table :=
    ⟨wf_new, hstart.linked, hstart.keyed⟩
  refine ⟨hbacked.weaken, ?_, ?_, ?_⟩
  · intro i d hd
    exact absurd hd (Finset.notMem_empty d)
  · intro i _
    exact Nat.zero_le 1
  · intro i
    exact .bare rfl

/-- Every action leads to a state in which only `parents` serve as directories, and `link` is
rejected on these. -/
def Admits (parents : Set PathNode) (c : Config (service (pathNodeFs P)))
    (a : Action (service (pathNodeFs P))) : Prop :=
  c.StepOk (rejectsLinks parents) a ∧
    ∀ c', c.next a = some c' → Parented parents c'.state.fs.ns c'.state.table

lemma Admits.grounding {c c' : Config (service (pathNodeFs P))}
    {a : Action (service (pathNodeFs P))} (h : Admits parents c a) (hn : c.next a = some c') :
    c.StepOk (TypedFuse.grounding parents) a := by
  cases a with
  | issue req => trivial
  | answer n => trivial
  | step n ch =>
    rintro req i ⟨m, k, ht⟩
    refine ⟨h.1 req i ⟨m, k, ht⟩, ?_⟩
    obtain ⟨m', req', i', k', r, s, ht', he, rfl⟩ := next_step hn
    rw [ht] at ht'
    cases ht'
    have hparented : Parented parents s.fs.ns s.table := h.2 _ hn
    cases i with
    | fs i =>
      cases i with
      | own i =>
        cases (i : PathInstr P) with
        | record key id d =>
          obtain ⟨hns, htable⟩ := Effect.record (n := m) key id d c.state rfl rfl ch r s he
          rw [hns, htable] at hparented
          exact hparented
        | addAlias id d =>
          obtain ⟨hns, htable⟩ := Effect.addAlias (n := m) id d c.state rfl rfl ch r s he
          rw [hns, htable] at hparented
          exact hparented
        | _ => trivial
      | _ => trivial
    | _ => trivial

/-- Over an inner filesystem that rejects moves of directories below themselves, in every sequential
run in which it also rejects `link` on all nodes that ever serve as the directory of a name, and in
which no name begins with a separator, following first aliases ends between the requests, and so
does the recursion of `path_for`. -/
theorem path_for_terminates (hP : RejectsSubtree P) {parents : Set PathNode}
    {c : Config (service (pathNodeFs P))}
    (hr : Run (fun c a => oneAtATime c a ∧ Admits parents c a) (start (pathNodeFs P)) c)
    (hq : c.Quiet) (i : NodeId) :
    c.state.fs.ns.Ends i ∧ ∃ r, c.state.fs.ns.pathFor i = some r := by
  have hrun : Run (fun c a => oneAtATime c a ∧ c.StepOk (grounding parents) a)
      (start (pathNodeFs P)) c := by
    refine hr.mono_next ?_
    rintro c a c' ⟨halone, hadmits⟩ hn
    exact ⟨halone, hadmits.grounding hn⟩
  have hgrounded : Grounded (P := P) parents c.state.fs.ns c.state.table :=
    (grounded_keeping hP parents).holds (grounded_new parents) hrun hq
  exact ⟨hgrounded.ascending.ends i,
    Namespace.pathFor_isSome_of_ends hgrounded.ascending.ends i⟩

/-! ## A strict inner filesystem -/

/-- The answers of an inner filesystem that rejects moves of directories below themselves; whether
it links is its choice. -/
def strictAnswer (e : PathSample.Entries) : (c : PathCall fun _ => Unit) → c.Resp
  | .rename oldparent name newparent _ _ =>
    if oldparent.push name <+: newparent then fail .EINVAL else Except.ok ()
  | .link _ _ _ _ => if e.fails then fail .EPERM else Except.ok ({} : NodeAttr)
  | c => PathSample.answer e c

/-- The strict inner filesystem. -/
def strict : PathFilesystem where
  Payload := fun _ => Unit
  State := Unit
  Choice := PathSample.Entries
  init := ()
  call := fun c e s => some (strictAnswer e c, s)

lemma Path.Under.isPrefix {p q : Path} (h : Path.Under p q) : p <+: q := by
  rcases h with rfl | ⟨name, hname, rfl⟩
  · exact List.prefix_rfl
  · rw [Path.push_relative hname]
    split
    · exact List.prefix_append _ _
    · exact List.prefix_append _ _

lemma strict_rejectsSubtree : RejectsSubtree strict := by
  intro oldparent name newparent newname caller ch s r s' hcall hunder
  obtain ⟨hr, _⟩ := Prod.mk.inj (Option.some.inj hcall)
  have hanswer : strictAnswer ch (.rename oldparent name newparent newname caller) =
      fail .EINVAL := if_pos hunder.isPrefix
  exact ⟨_, hr.symm.trans hanswer⟩

/-- Serve a request alone over the strict filesystem. -/
private def served (n m : ℕ) (e : PathSample.Entries) (req : Request) :
    List (Action (service (pathNodeFs strict))) :=
  .issue req :: List.replicate m (.step n (some e)) ++ [.answer n]

/-- The check behind `rejectsLinks`. -/
private def linkCheck (parents : PathNode → Bool) (c : Config (service (pathNodeFs strict))) :
    Action (service (pathNodeFs strict)) → Bool
  | .step n _ =>
    match c.threads[n]? with
    | some ⟨_, .makeOp (.link id _ _) _, .running (.act (.fs (.own i)) _)⟩ =>
      match (i : PathInstr strict) with
      | .addAlias _ _ => (c.state.table.slot id).all fun sl => !parents sl.record.payload
      | _ => true
    | _ => true
  | _ => true

private lemma of_all {α : Type} {o : Option α} {p : α → Bool} {x : α} (h : o.all p = true)
    (hx : o = some x) : p x = true := by
  rw [hx] at h
  exact h

private lemma rejectsLinks_of_check {parents : PathNode → Bool} {nodes : Set PathNode}
    (hmem : ∀ p, p ∈ nodes → parents p = true) (c : Config (service (pathNodeFs strict)))
    (a : Action (service (pathNodeFs strict))) (h : linkCheck parents c a = true) :
    c.StepOk (rejectsLinks nodes) a := by
  cases a with
  | issue req => trivial
  | answer n => trivial
  | step n ch =>
    rintro req i ⟨m, k, ht⟩
    unfold linkCheck at h
    simp only [ht] at h
    cases req with
    | makeOp op caller =>
      cases op with
      | link id newparent newname =>
        cases i with
        | fs i =>
          cases i with
          | own i =>
            cases (i : PathInstr strict) with
            | addAlias id' d =>
              intro sl hsl hin
              have hnot : (!parents sl.record.payload) = true :=
                of_all (p := fun sl : Slot PathNode => !parents sl.record.payload) h hsl
              rw [hmem sl.record.payload hin] at hnot
              cases hnot
            | _ => trivial
          | _ => trivial
        | _ => trivial
      | _ => trivial
    | _ => trivial

/-- The check behind `Parented`. -/
private def parentedCheck (parents : PathNode → Bool) (ns : Namespace) (t : PathTable strict) :
    Bool :=
  BTreeMap.countWhere ns.aliases (fun _ ds =>
    !decide (∀ d ∈ ds, d.name.Relative ∧
      (t.slot d.parent).all (fun sl => parents sl.record.payload) = true)) = 0

private lemma parented_of_check {parents : PathNode → Bool} {ns : Namespace}
    {t : PathTable strict} (h : parentedCheck parents ns t = true) :
    Parented {p | parents p = true} ns t := by
  intro i d hd
  unfold Namespace.names at hd
  cases hlookup : ns.aliases.lookup i with
  | none =>
    rw [hlookup] at hd
    exact absurd hd (Finset.notMem_empty d)
  | some ds =>
    rw [hlookup] at hd
    have hzero := of_decide_eq_true h
    by_contra hnot
    have hall : ¬ ∀ d ∈ ds, d.name.Relative ∧
        (t.slot d.parent).all (fun sl => parents sl.record.payload) = true := by
      intro hall
      obtain ⟨hrel, hslot⟩ := hall d hd
      exact hnot ⟨hrel, fun sl hsl =>
        of_all (p := fun sl : Slot PathNode => parents sl.record.payload) hslot hsl⟩
    have hpos := BTreeMap.countWhere_pos (p := fun _ ds =>
      !decide (∀ d ∈ ds, d.name.Relative ∧
        (t.slot d.parent).all (fun sl => parents sl.record.payload) = true)) hlookup (by
          rw [decide_eq_false hall]
          rfl)
    omega

/-- The check behind `Admits`. -/
private def admitsCheck (parents : PathNode → Bool) (c : Config (service (pathNodeFs strict)))
    (a : Action (service (pathNodeFs strict))) : Bool :=
  c.alone a && linkCheck parents c a &&
    (c.next a).all fun c' => parentedCheck parents c'.state.fs.ns c'.state.table

private lemma admits_of_check {parents : PathNode → Bool}
    (c : Config (service (pathNodeFs strict))) (a : Action (service (pathNodeFs strict)))
    (h : admitsCheck parents c a = true) :
    oneAtATime c a ∧ Admits {p | parents p = true} c a := by
  obtain ⟨hboth, hparented⟩ := Bool.and_eq_true_iff.mp h
  obtain ⟨halone, hlink⟩ := Bool.and_eq_true_iff.mp hboth
  refine ⟨oneAtATime_of_alone c a halone, rejectsLinks_of_check (fun _ h => h) c a hlink, ?_⟩
  intro c' hn
  rw [hn] at hparented
  exact parented_of_check hparented

/-- Do requests change and link files and directories, and does the filesystem reject to move and to
link a directory. -/
private def rejected : List (Action (service (pathNodeFs strict))) :=
  served 0 19 {} (.makeOp (.mkdir NodeId.ROOT [100] 0 0) {}) ++
    served 1 19 {} (.makeOp (.mknod 2 [120] 0 0 0) {}) ++
    served 2 18 {} (.makeOp (.link 3 NodeId.ROOT [121]) {}) ++
    served 3 13 {} (.treeOp (.rename NodeId.ROOT [100] NodeId.ROOT [101] 0) {}) ++
    served 4 5 {} (.treeOp (.rename NodeId.ROOT [101] 2 [115] 0) {}) ++
    served 5 5 { fails := true } (.makeOp (.link 2 NodeId.ROOT [122]) {})

/-- Make a directory, list a name in it that begins with a separator, and move the directory into
the node of that name. -/
private def looped : List (Action (service (pathNodeFs strict))) :=
  served 0 19 {} (.makeOp (.mkdir NodeId.ROOT [100] 0 0) {}) ++
    served 1 9 {} (.openNode .dir 2 0 {}) ++
    served 2 20 { names := [[47, 101]] } (.readdir 2 1 0 (fun _ _ => true) {}) ++
    served 3 13 {} (.treeOp (.rename NodeId.ROOT [100] 3 [102] 0) {})

/-- The configuration after a list of actions that pass a check, from the start. -/
private def afterStrictly (check : Config (service (pathNodeFs strict)) →
    Action (service (pathNodeFs strict)) → Bool)
      (as : List (Action (service (pathNodeFs strict)))) :
    Config (service (pathNodeFs strict)) :=
  ((start (pathNodeFs strict)).runs check as).getD (start (pathNodeFs strict))

private lemma run_afterStrictly {allow : Config (service (pathNodeFs strict)) →
      Action (service (pathNodeFs strict)) → Prop}
    {check : Config (service (pathNodeFs strict)) → Action (service (pathNodeFs strict)) → Bool}
    (hcheck : ∀ c a, check c a = true → allow c a)
    (as : List (Action (service (pathNodeFs strict))))
    (h : ((start (pathNodeFs strict)).runs check as).isSome = true) :
    Run allow (start (pathNodeFs strict)) (afterStrictly check as) := by
  obtain ⟨c, hc⟩ := Option.isSome_iff_exists.mp h
  unfold afterStrictly
  rw [hc]
  exact run_of_runs hcheck hc

/-- A file is linked, and a directory is not. -/
theorem path_for_terminates_rejected : ∃ c : Config (service (pathNodeFs strict)),
    Run oneAtATime (start (pathNodeFs strict)) c ∧ c.threads.length = 6 ∧
      c.state.fs.ns.pathFor 3 = some (some [47, 121]) ∧
      ∀ i, c.state.fs.ns.Ends i ∧ ∃ r, c.state.fs.ns.pathFor i = some r := by
  have hcheck : ∀ c a, admitsCheck (fun p => p.key ≤ 2) c a = true →
      oneAtATime c a ∧ Admits {p : PathNode | decide (p.key ≤ 2) = true} c a := admits_of_check
  have hr := run_afterStrictly hcheck rejected (by decide +kernel)
  have hq : (afterStrictly (admitsCheck fun p => p.key ≤ 2) rejected).Quiet :=
    quiet_of_idle (by decide +kernel)
  exact ⟨_, hr.mono fun _ _ h => h.1, by decide +kernel, by decide +kernel,
    path_for_terminates strict_rejectsSubtree hr hq⟩

/-- A directory that was moved into the node of a name that begins with a separator lies below
itself. -/
theorem path_for_loops : RejectsSubtree strict ∧ ∃ c : Config (service (pathNodeFs strict)),
    Run (fun c a => oneAtATime c a ∧ c.StepOk (rejectsLinks Set.univ) a)
      (start (pathNodeFs strict)) c ∧ c.Quiet ∧ c.state.fs.ns.pathFor 2 = none ∧
      ¬ c.state.fs.ns.Ends 2 := by
  have hcheck : ∀ c a, (c.alone a && linkCheck (fun _ => true) c a) = true →
      oneAtATime c a ∧ c.StepOk (rejectsLinks (P := strict) Set.univ) a := by
    intro c a h
    obtain ⟨halone, hlink⟩ := Bool.and_eq_true_iff.mp h
    exact ⟨oneAtATime_of_alone c a halone, rejectsLinks_of_check (fun _ _ => rfl) c a hlink⟩
  have hr := run_afterStrictly hcheck looped (by decide +kernel)
  have hq : (afterStrictly (fun c a => c.alone a && linkCheck (fun _ => true) c a) looped).Quiet :=
    quiet_of_idle (by decide +kernel)
  have hpath : (afterStrictly (fun c a => c.alone a && linkCheck (fun _ => true) c a)
      looped).state.fs.ns.pathFor 2 = none := by decide +kernel
  have h₂ : (afterStrictly (fun c a => c.alone a && linkCheck (fun _ => true) c a)
      looped).state.fs.ns.firstAlias 2 = some ⟨3, [102]⟩ := by decide +kernel
  have h₃ : (afterStrictly (fun c a => c.alone a && linkCheck (fun _ => true) c a)
      looped).state.fs.ns.firstAlias 3 = some ⟨2, [47, 101]⟩ := by decide +kernel
  generalize afterStrictly (fun c a => c.alone a && linkCheck (fun _ => true) c a) looped = c
    at hr hq hpath h₂ h₃
  refine ⟨strict_rejectsSubtree, c, hr, hq, hpath, ?_⟩
  intro hends
  have hup : c.state.fs.ns.Up 2 3 := ⟨by decide, _, h₂, rfl⟩
  have hup' : c.state.fs.ns.Up 3 2 := ⟨by decide, _, h₃, rfl⟩
  exact hends.not_transGen (.tail (.single hup) hup')

end TypedFuse
