import TypedFuse.Conc.Prog
import TypedFuse.Core.Handles

/-!
# Filesystems over nodes

A `NodeFs` is any implementation of the trait of `node_fs.rs`.  Its callbacks are programs: they
may call the methods of `Cx` at any point, each of which is one critical section of the node
table, they may keep and drop the `NodeRef`s they obtain, and they may use atomic steps of their
own on the filesystem's own state (its locks, its data, its backing store).  A step of their own
that is undefined in a state makes the callback wait.

`readdir` and `readdirplus` additionally push entries into a sink, so their programs have an
instruction for that, and the runtime decides what it does.
-/

namespace TypedFuse

open Conc

/-- The types and the own atomic steps of a filesystem. -/
structure FsSig where
  /-- Per-node data owned by the runtime.  It owns no `NodeRef`: it may be dropped under the lock of
  the node table, which dropping a `NodeRef` takes. -/
  Node : Type
  /-- Per-open data: `Handle` for files and `DirHandle` for directories. -/
  Payload : HandleKind → Type
  /-- The filesystem's own shared state. -/
  State : Type
  /-- The filesystem's own atomic steps. -/
  Instr : Type
  /-- The answer to an own step. -/
  Resp : Instr → Type
  /-- What an own step leaves open. -/
  Choice : Type
  /-- The effect of an own step of a thread; undefined while it has to wait. -/
  exec : ℕ → (i : Instr) → Choice → State → Option (Resp i × State)

/-- What a callback can do: call `Cx`, drop a `NodeRef` it owns, or take an own step. -/
inductive FsInstr (σ : FsSig) where
  | get (id : NodeId)
  | contains (id : NodeId)
  | insert (payload : σ.Node) (parent : NodeId)
  | reparent (id newParent : NodeId)
  | addLink (id : NodeId)
  | removeLink (id : NodeId)
  | dropRef (r : NodeRef σ.Node)
  | own (i : σ.Instr)

/-- The answers to the instructions of a callback. -/
def FsInstr.Resp {σ : FsSig} : FsInstr σ → Type
  | .get _ => Option (NodeRef σ.Node)
  | .contains _ => Bool
  | .insert _ _ => NodeId
  | .own i => σ.Resp i
  | .reparent _ _ => Unit
  | .addLink _ => Unit
  | .removeLink _ => Unit
  | .dropRef _ => Unit

/-- A callback. -/
abbrev FsProg (σ : FsSig) (α : Type) : Type :=
  Prog (FsInstr σ) FsInstr.Resp α

/-- What a directory callback can do: everything else a callback can, and push an entry with the
data `D` into the sink. -/
inductive DirInstr (σ : FsSig) (D : Type) where
  | fs (i : FsInstr σ)
  | add (name : Name) (id : NodeId) (data : D) (nextOffset : ℕ)

/-- The answers to the instructions of a directory callback. -/
def DirInstr.Resp {σ : FsSig} {D : Type} : DirInstr σ D → Type
  | .fs i => i.Resp
  | .add _ _ _ _ => Bool

/-- A directory callback. -/
abbrev DirProg (σ : FsSig) (D α : Type) : Type :=
  Prog (DirInstr σ D) DirInstr.Resp α

/-- Use a callback inside a directory callback. -/
def FsProg.inDir {σ : FsSig} {D α : Type} (p : FsProg σ α) : DirProg σ D α :=
  p.embed .fs fun _ r => r

/-- A filesystem: the callbacks of the trait, families of them grouped as in `Types`. -/
structure NodeFs extends FsSig where
  /-- The filesystem's own state before the first callback. -/
  init : State
  root : Node
  populate : FsProg toFsSig Unit
  getattr : Node → Option (Payload .file) → Caller → FsProg toFsSig (Fallible NodeAttr)
  setattr : Node → Option (Payload .file) → SetAttr → Caller →
    FsProg toFsSig (Fallible NodeAttr)
  nodeOp : NodeOp → Node → Caller → FsProg toFsSig (Fallible Value)
  fileOp : FileOp → Node → Payload .file → Caller → FsProg toFsSig (Fallible Value)
  fsyncdir : Node → Payload .dir → Bool → Caller → FsProg toFsSig (Fallible Unit)
  statfs : Caller → FsProg toFsSig (Fallible StatFs)
  /-- `open` and `opendir`. -/
  openNode : (k : HandleKind) → Node → ℤ → Caller →
    FsProg toFsSig (Fallible (Opened (Payload k)))
  /-- `release` and `releasedir`. -/
  release : (k : HandleKind) → Node → Payload k → Caller → FsProg toFsSig (Fallible Unit)
  readdir : Node → NodeId → NodeId → Payload .dir → ℕ → Caller →
    DirProg toFsSig FileKind (Fallible Unit)
  readdirplus : Node → NodeId → NodeId → Payload .dir → ℕ → Caller →
    DirProg toFsSig NodeAttr (Fallible Unit)
  lookup : NodeId → Name → Caller → FsProg toFsSig (Fallible (Option NodeId))
  /-- `mknod`, `mkdir`, `symlink` and `link`. -/
  makeOp : MakeOp → Caller → FsProg toFsSig (Fallible NodeId)
  /-- `unlink`, `rmdir`, `rename` and `copy_file_range`. -/
  treeOp : TreeOp → Caller → FsProg toFsSig (Fallible Value)
  create : NodeId → Name → ℕ → ℕ → ℤ → Caller →
    FsProg toFsSig (Fallible (NodeId × Opened (Payload .file)))

/-- A callback that does not panic. -/
def FsProg.Calm {σ : FsSig} {α : Type} (p : FsProg σ (Fallible α)) : Prop :=
  p.Returns fun a => a ≠ .error .panic

/-- A directory callback that does not panic. -/
def DirProg.Calm {σ : FsSig} {D α : Type} (p : DirProg σ D (Fallible α)) : Prop :=
  p.Returns fun a => a ≠ .error .panic

/-- A filesystem whose callbacks do not panic. -/
structure NodeFs.NoPanic (fs : NodeFs) : Prop where
  getattr : ∀ node h caller, (fs.getattr node h caller).Calm
  setattr : ∀ node h set caller, (fs.setattr node h set caller).Calm
  nodeOp : ∀ op node caller, (fs.nodeOp op node caller).Calm
  fileOp : ∀ op node h caller, (fs.fileOp op node h caller).Calm
  fsyncdir : ∀ node h datasync caller, (fs.fsyncdir node h datasync caller).Calm
  statfs : ∀ caller, (fs.statfs caller).Calm
  openNode : ∀ k node flags caller, (fs.openNode k node flags caller).Calm
  release : ∀ k node h caller, (fs.release k node h caller).Calm
  readdir : ∀ node id parent h offset caller, (fs.readdir node id parent h offset caller).Calm
  readdirplus : ∀ node id parent h offset caller,
    (fs.readdirplus node id parent h offset caller).Calm
  lookup : ∀ parent name caller, (fs.lookup parent name caller).Calm
  makeOp : ∀ op caller, (fs.makeOp op caller).Calm
  treeOp : ∀ op caller, (fs.treeOp op caller).Calm
  create : ∀ parent name mode umask flags caller,
    (fs.create parent name mode umask flags caller).Calm

end TypedFuse
