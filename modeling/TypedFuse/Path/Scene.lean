import TypedFuse.Conc.Guarantees
import TypedFuse.Path.Dangling
import TypedFuse.Path.Keeping
import TypedFuse.Path.TreeFilesystem

/-!
# What callbacks do alone over a tree

A node stands for the object that its name led to when it was inserted.  A path that is handed to
the inner filesystem is handed to it for a node that the request is about; it has to be the path of
this node, and has to lead to the object that the node stands for.  `Course` follows the names, the
inode table and the inner filesystem through a callback that runs alone, and has every call of the
inner filesystem meet this.
-/

namespace TypedFuse

open Conc Conc.Service NodeTable TypedFuse.Runtime

variable {P : PathFilesystem}

/-- What the state says about nodes and objects. -/
structure Scene (P : PathFilesystem) where
  inner : P.State
  ns : Namespace
  born : BTreeMap ℕ (Birth P)
  table : PathTable P

/-- The scene of a state. -/
def scene (s : RtState (PathNodeFs.sig P)) : Scene P :=
  ⟨s.fs.inner, s.fs.ns, s.fs.hist.born, s.table⟩

/-! ## What requests are about -/

/-- A relation holds of every path and the node in its place. -/
def Matched (R : Path → NodeId → Prop) : List Path → List NodeId → Prop
  | [], _ => True
  | _ :: _, [] => False
  | p :: ps, i :: is => R p i ∧ Matched R ps is

lemma Matched.mono {R R' : Path → NodeId → Prop} (hR : ∀ p i, R p i → R' p i) {ps : List Path}
    {is : List NodeId} (h : Matched R ps is) : Matched R' ps is := by
  induction ps generalizing is with
  | nil => trivial
  | cons p ps ih =>
    cases is with
    | nil => exact h
    | cons i is => exact ⟨hR p i h.1, ih h.2⟩

/-- The node that a call is for in a request that enters a name: attributes are those of the node
with the name, and everything else is about the directory. -/
def Dentry.subjects {Payload : HandleKind → Type} (d : Dentry) (ns : Namespace) :
    PathCall Payload → List NodeId
  | .getattr _ _ _ => (ns.find d).toList
  | _ => [d.parent]

/-- The nodes that a call is for in a request that makes a name. -/
def MakeOp.subjects {Payload : HandleKind → Type} (op : MakeOp) (ns : Namespace)
    (c : PathCall Payload) : List NodeId :=
  match op with
  | .mknod parent name _ _ _ | .mkdir parent name _ _ | .symlink parent name _ =>
    Dentry.subjects ⟨parent, name⟩ ns c
  | .link id newparent _ => [id, newparent]

/-- The nodes that a call is for in a request that removes or moves a name. -/
def TreeOp.subjects : TreeOp → List NodeId
  | .unlink parent _ | .rmdir parent _ => [parent]
  | .rename parent _ newparent _ _ => [parent, newparent]
  | .copyFileRange _ _ _ _ _ _ => []

/-- The nodes for which a request hands the paths in a call to the inner filesystem. -/
def Request.subjects {Payload : HandleKind → Type} (req : Request) (ns : Namespace)
    (c : PathCall Payload) : List NodeId :=
  match req with
  | .populate | .forget _ _ => []
  | .statfs _ => [NodeId.ROOT]
  | .getattr ino _ _ | .setattr ino _ _ _ | .nodeOp _ ino _ | .fileOp _ ino _ _
  | .fsyncdir ino _ _ _ | .openNode _ ino _ _ | .release _ ino _ _ | .readdir ino _ _ _ _
  | .readdirplus ino _ _ _ _ => [ino]
  | .lookup parent name _ | .create parent name _ _ _ _ => Dentry.subjects ⟨parent, name⟩ ns c
  | .makeOp op _ => op.subjects ns c
  | .treeOp op _ => op.subjects

/-- The names in a request that makes a name. -/
def MakeOp.names : MakeOp → List Name
  | .mknod _ name _ _ _ | .mkdir _ name _ _ | .symlink _ name _ | .link _ _ name => [name]

/-- The names in a request that removes or moves a name. -/
def TreeOp.names : TreeOp → List Name
  | .unlink _ name | .rmdir _ name => [name]
  | .rename _ name _ newname _ => [name, newname]
  | .copyFileRange _ _ _ _ _ _ => []

/-- The names in a request. -/
def Request.names : Request → List Name
  | .lookup _ name _ | .create _ name _ _ _ _ => [name]
  | .makeOp op _ => op.names
  | .treeOp op _ => op.names
  | _ => []

/-- A request of a kernel that has looked up what it moves: its names are ordinary, and the name
that it moves is bound. -/
structure Proper (req : Request) (s : RtState (PathNodeFs.sig P)) : Prop where
  ordinary : ∀ name ∈ req.names, name.Ordinary
  source : ∀ d, req.moves = some d → ∃ i, s.fs.ns.find d = some i

instance Proper.decidable (req : Request) (s : RtState (PathNodeFs.sig P)) :
    Decidable (Proper req s) := by
  refine decidable_of_iff ((∀ name ∈ req.names, name.Ordinary) ∧
    ∀ d ∈ req.moves, (s.fs.ns.find d).isSome) ?_
  constructor
  · rintro ⟨hnames, hmoves⟩
    exact ⟨hnames, fun d hd => Option.isSome_iff_exists.mp (hmoves d hd)⟩
  · rintro ⟨hnames, hsource⟩
    exact ⟨hnames, fun d hd => Option.isSome_iff_exists.mpr (hsource d hd)⟩

section Objects

variable (F : TreeFilesystem P)

/-- The object that the node with a key was inserted for: the root, or what the name led to in the
directory in which the node was inserted, at that time. -/
inductive BornAs (born : BTreeMap ℕ (Birth P)) : ℕ → F.Obj → Prop where
  | root : BornAs born 1 (F.tree P.init).root
  | made {key : ℕ} {b : Birth P} {p : Path} {a o : F.Obj} (hkey : key ≠ 1)
      (hb : born.lookup key = some b) (hdir : b.dir = some (some p))
      (hp : (F.tree b.inner).resolve p = some a)
      (ho : (F.tree b.inner).child a b.name = some o) : BornAs born key o

/-- The object that a node stands for. -/
def Stands (v : Scene P) (i : NodeId) (o : F.Obj) : Prop :=
  ∃ sl, v.table.slot i = some sl ∧ BornAs F v.born (PathNode.key sl.record.payload) o

/-- A path may be handed to the inner filesystem for a node: it is the path of the node, and leads
to the object that the node stands for. -/
structure Handed (v : Scene P) (p : Path) (i : NodeId) : Prop where
  path : v.ns.pathFor i = some (some p)
  object : ∃ o, Stands F v i o ∧ (F.tree v.inner).resolve p = some o

/-- Every path in a call of the inner filesystem may be handed to it for the node that the request
has in its place. -/
def HandsOver (req : Request) (i : RtInstr (PathNodeFs.sig P)) (s : RtState (PathNodeFs.sig P)) :
    Prop :=
  match i with
  | .fs (.own i) =>
    match (i : PathInstr P) with
    | .inner c => Matched (Handed F (scene s)) c.paths (req.subjects s.fs.ns c)
    | _ => True
  | _ => True

end Objects

variable {F : TreeFilesystem P}

/-- A node was inserted for one object. -/
lemma BornAs.unique {born : BTreeMap ℕ (Birth P)} {key : ℕ} {o o' : F.Obj}
    (h : BornAs F born key o) (h' : BornAs F born key o') : o = o' := by
  cases h with
  | root =>
    cases h' with
    | root => rfl
    | made hkey => exact absurd rfl hkey
  | made hkey hb hdir hp ho =>
    cases h' with
    | root => exact absurd rfl hkey
    | made hkey' hb' hdir' hp' ho' =>
      obtain rfl := Option.some.inj (hb.symm.trans hb')
      obtain rfl := Option.some.inj (Option.some.inj (hdir.symm.trans hdir'))
      obtain rfl := Option.some.inj (hp.symm.trans hp')
      exact Option.some.inj (ho.symm.trans ho')

/-- Nodes with other keys stand for what they stood for. -/
lemma BornAs.insert {born : BTreeMap ℕ (Birth P)} {key key' : ℕ} {o : F.Obj} (b : Birth P)
    (h : BornAs F born key o) (hne : key ≠ key') : BornAs F (born.insert key' b) key o := by
  cases h with
  | root => exact .root
  | made hkey hb hdir hp ho =>
    refine .made hkey ?_ hdir hp ho
    rw [BTreeMap.lookup_insert_ite, if_neg hne, hb]

namespace Stands

variable {v v' : Scene P} {i : NodeId} {o o' : F.Obj}

lemma unique (h : Stands F v i o) (h' : Stands F v i o') : o = o' := by
  obtain ⟨sl, hsl, hborn⟩ := h
  obtain ⟨sl', hsl', hborn'⟩ := h'
  obtain rfl := Option.some.inj (hsl.symm.trans hsl')
  exact hborn.unique hborn'

end Stands

/-! ## Courses -/

/-- Whatever a callback does alone from a scene for a request, the inner filesystem is handed paths
of the nodes that the request is about, and it ends in `Q`. -/
def Course (F : TreeFilesystem P) {α : Type} (req : Request) (n : ℕ) (v : Scene P)
    (p : PathNodeFs.Callback P α) (Q : α → Scene P → Prop) : Prop :=
  ∀ s : RtState (PathNodeFs.sig P), scene s = v →
    (service (pathNodeFs P)).Guarantees (HandsOver F req) n s (call (σ := PathNodeFs.sig P) p)
      fun a s' => Q a (scene s')

/-- An own step that neither calls the inner filesystem nor records a node. -/
def PathInstr.Modest : PathInstr P → Prop
  | .inner _ | .record _ _ _ => False
  | _ => True

/-- Such a step leaves the inner filesystem and the origin of nodes alone. -/
lemma PathInstr.Modest.keeps {n : ℕ} {i : PathInstr P} (hi : i.Modest) {f f' : PathState P}
    {ch : P.Choice} {r : i.Resp} (he : f.exec n i ch = some (r, f')) :
    f'.inner = f.inner ∧ f'.hist.born = f.hist.born := by
  cases i with
  | inner c => exact hi.elim
  | record key id d => exact hi.elim
  | readLock | writeLock | nsLock | nodeId =>
    rw [PathState.exec] at he
    split at he
    · cases he
    · obtain ⟨_, rfl⟩ := Prod.mk.inj (Option.some.inj he)
      exact ⟨rfl, rfl⟩
  | pathFor id =>
    rw [PathState.exec] at he
    split at he
    · cases he
    · obtain ⟨_, _, heq⟩ := Option.map_eq_some_iff.mp he
      obtain ⟨_, rfl⟩ := Prod.mk.inj heq
      exact ⟨rfl, rfl⟩
  | takeKey =>
    obtain ⟨_, _, heq⟩ := Option.map_eq_some_iff.mp he
    obtain ⟨_, rfl⟩ := Prod.mk.inj heq
    exact ⟨rfl, rfl⟩
  | known d =>
    obtain ⟨_, rfl⟩ := Prod.mk.inj (Option.some.inj he)
    refine ⟨rfl, ?_⟩
    cases hd : f.ns.find d with
    | none => rfl
    | some id => rfl
  | readUnlock | writeUnlock | nsUnlock | find | remove | addAlias =>
    obtain ⟨_, rfl⟩ := Prod.mk.inj (Option.some.inj he)
    exact ⟨rfl, rfl⟩

/-- Likewise for the instructions of a callback. -/
def Modest : FsInstr (PathNodeFs.sig P) → Prop
  | .own i => PathInstr.Modest (P := P) i
  | _ => True

lemma Modest.keeps {n : ℕ} {i : FsInstr (PathNodeFs.sig P)} (hi : Modest i)
    {s s' : RtState (PathNodeFs.sig P)} {ch : Option P.Choice} {r : i.Resp}
    (he : s.execFs n i ch = some (r, s')) :
    s'.fs.inner = s.fs.inner ∧ s'.fs.hist.born = s.fs.hist.born := by
  cases i with
  | get | insert | addLink =>
    obtain ⟨_, _, heq⟩ := Option.map_eq_some_iff.mp he
    obtain ⟨_, rfl⟩ := Prod.mk.inj heq
    exact ⟨rfl, rfl⟩
  | contains | reparent | removeLink =>
    obtain ⟨_, rfl⟩ := Prod.mk.inj (Option.some.inj he)
    exact ⟨rfl, rfl⟩
  | dropRef ref =>
    change (if ref.key ∈ s.hist.fsRefs then some ((), _) else none) = some (r, s') at he
    split at he
    · obtain ⟨_, rfl⟩ := Prod.mk.inj (Option.some.inj he)
      exact ⟨rfl, rfl⟩
    · cases he
  | own i =>
    obtain ⟨c, f', hex, rfl⟩ := exec_own he
    exact PathInstr.Modest.keeps hi hex

namespace Course

variable {req : Request} {n : ℕ} {α β : Type} {v : Scene P}

lemma ret {a : α} {Q : α → Scene P → Prop} (h : Q a v) : Course F req n v (.ret a) Q := by
  rintro s rfl
  exact h

lemma mono {p : PathNodeFs.Callback P α} {Q Q' : α → Scene P → Prop} (h : Course F req n v p Q)
    (hQ : ∀ a v', Q a v' → Q' a v') : Course F req n v p Q' :=
  fun s hs => (h s hs).mono fun a _ ha => hQ a _ ha

lemma bind {p : PathNodeFs.Callback P α} {f : α → PathNodeFs.Callback P β}
    {Q : α → Scene P → Prop} {Q' : β → Scene P → Prop} (h : Course F req n v p Q)
    (hf : ∀ a v', Q a v' → Course F req n v' (f a) Q') : Course F req n v (p >>= f) Q' := by
  intro s hs
  rw [call_bind]
  exact (h s hs).bind fun a s' ha => hf a _ ha s' rfl

/-- Both branches of a conditional. -/
lemma ite {c : Prop} {_ : Decidable c} {p q : PathNodeFs.Callback P α} {Q : α → Scene P → Prop}
    (hp : c → Course F req n v p Q) (hq : ¬c → Course F req n v q Q) :
    Course F req n v (if c then p else q) Q := by
  split
  · next hc => exact hp hc
  · next hc => exact hq hc

/-- What is known of the names and the inode table after a callback that neither calls the inner
filesystem nor records a node. -/
lemma of_effect {p : PathNodeFs.Callback P α} {Q : α → Namespace → PathTable P → Prop}
    (h : Effect P n v.ns v.table p Q) (hp : p.Performs Modest) :
    Course F req n v p fun a v' =>
      ∃ ns' t', v' = { v with ns := ns', table := t' } ∧ Q a ns' t' := by
  rintro s rfl
  have hs := h s rfl rfl
  -- the induction is on the instructions of the callback
  have hkeeps : ∀ {p : PathNodeFs.Callback P α} {s : RtState (PathNodeFs.sig P)}
      {Q : α → RtState (PathNodeFs.sig P) → Prop}, p.Performs Modest →
      (service (pathNodeFs P)).Ensures n s (call (σ := PathNodeFs.sig P) p) Q →
      (service (pathNodeFs P)).Guarantees (HandsOver F req) n s (call (σ := PathNodeFs.sig P) p)
        fun a s' => Q a s' ∧ s'.fs.inner = s.fs.inner ∧ s'.fs.hist.born = s.fs.hist.born := by
    intro p
    induction p with
    | ret a => exact fun _ hQ => ⟨hQ, rfl, rfl⟩
    | act i k ih =>
      intro s Q hp hQ
      refine ⟨?_, ?_⟩
      · cases i with
        | own i =>
          cases (i : PathInstr P) with
          | inner c => exact hp.1.elim
          | _ => trivial
        | _ => trivial
      · intro ch r s₁ he
        obtain ⟨hinner, hborn⟩ := Modest.keeps hp.1 he
        refine (ih r (hp.2 r) (hQ ch r s₁ he)).mono ?_
        rintro a s' ⟨ha, hinner', hborn'⟩
        exact ⟨ha, hinner'.trans hinner, hborn'.trans hborn⟩
  refine (hkeeps hp hs).mono ?_
  rintro a s' ⟨ha, hinner, hborn⟩
  refine ⟨s'.fs.ns, s'.table, ?_, ha⟩
  unfold scene
  rw [hinner, hborn]

/-- A modest callback that changes neither the names nor the inode table, then the rest. -/
lemma quiet {p : PathNodeFs.Callback P α} {f : α → PathNodeFs.Callback P β}
    {Q : β → Scene P → Prop}
    (h : Effect P n v.ns v.table p fun _ ns' t' => ns' = v.ns ∧ t' = v.table)
    (hp : p.Performs Modest) (hf : ∀ a, Course F req n v (f a) Q) :
    Course F req n v (p >>= f) Q := by
  refine (of_effect h hp).bind ?_
  rintro a _ ⟨_, _, rfl, rfl, rfl⟩
  exact hf a

/-- A call of the inner filesystem. -/
lemma inner {c : PathCall P.Payload} {Q : c.Resp → Scene P → Prop}
    (hpaths : Matched (Handed F v) c.paths (req.subjects v.ns c))
    (h : ∀ ch r g, P.call c ch v.inner = some (r, g) → Q r { v with inner := g }) :
    Course F req n v (PathNodeFs.inner c) Q := by
  rintro s rfl
  refine Guarantees.perform hpaths ?_
  intro ch r s' he
  obtain ⟨c', f', hex, rfl⟩ := exec_own he
  obtain ⟨⟨r', g⟩, hcall, heq⟩ := Option.map_eq_some_iff.mp hex
  obtain ⟨rfl, rfl⟩ := Prod.mk.inj heq
  exact h c' r' g hcall

/-- Recording a node. -/
lemma record (key : ℕ) (id : NodeId) (d : Dentry) :
    Course F req n v (PathNodeFs.own (.record key id d)) fun _ v' =>
      v' = { v with ns := v.ns.record key id d
                    born := v.born.insert key ⟨v.inner, v.ns.pathFor d.parent, d.name⟩ } := by
  rintro s rfl
  refine Guarantees.perform trivial ?_
  intro ch r s' he
  obtain ⟨c', f', hex, rfl⟩ := exec_own he
  obtain ⟨_, rfl⟩ := Prod.mk.inj (Option.some.inj hex)
  rfl

end Course

end TypedFuse
