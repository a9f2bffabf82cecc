import TypedFuse.Core.Runtime
import TypedFuse.Path.Namespace

/-!
# The path adapter

`PathNodeFs` of `path_fs.rs`: a `NodeFs` whose callbacks translate nodes to paths and call a
`PathFilesystem`.  The shared state of the adapter is the operations lock, the namespace with its
mutex, and the state of the inner filesystem.  A callback holds one side of the operations lock
from its first to its last step; the namespace mutex is held for single lookups and around
`Namespace::insert`, the removal of a name with its link, and the end of `rename`.

The inner filesystem is arbitrary: a call is one atomic step that answers anything its state and a
choice allow, and a call that is undefined waits.  A directory listing is a dialogue with the sink.

The state carries history variables that no instruction depends on: which thread bound a name,
which names a second thread has found bound, and where every node came from.
-/

namespace TypedFuse

open Conc

/-! ## The inner filesystem -/

/-- A directory listing as a dialogue: the inner filesystem offers an entry, sees whether the sink
takes it, and goes on, or it ends with a result. -/
inductive Listing (D : Type) where
  | finish (result : Fallible Unit)
  | emit (name : Name) (data : D) (nextOffset : ℕ) (next : Bool → Listing D)

/-- The calls of `PathFilesystem`, families of them grouped as in `Types`. -/
inductive PathCall (Payload : HandleKind → Type) where
  | lookup (parent : Path) (name : Name) (caller : Caller)
  | getattr (path : Option Path) (handle : Option (Payload .file)) (caller : Caller)
  | setattr (path : Option Path) (handle : Option (Payload .file)) (set : SetAttr) (caller : Caller)
  /-- `readlink`, `access`, `setxattr`, `getxattr`, `listxattr` and `removexattr`. -/
  | nodeOp (op : NodeOp) (path : Path) (caller : Caller)
  /-- `read`, `write`, `flush`, `fsync`, `fallocate`, `lseek`, `getlk` and `setlk`. -/
  | fileOp (op : FileOp) (path : Option Path) (handle : Payload .file) (caller : Caller)
  | fsyncdir (path : Option Path) (handle : Payload .dir) (datasync : Bool) (caller : Caller)
  | statfs (path : Path) (caller : Caller)
  /-- `open` and `opendir`. -/
  | openNode (k : HandleKind) (path : Path) (flags : ℤ) (caller : Caller)
  /-- `release` and `releasedir`. -/
  | release (k : HandleKind) (path : Option Path) (handle : Payload k) (caller : Caller)
  | mknod (parent : Path) (name : Name) (mode rdev umask : ℕ) (caller : Caller)
  | mkdir (parent : Path) (name : Name) (mode umask : ℕ) (caller : Caller)
  | symlink (parent : Path) (name : Name) (target : List UInt8) (caller : Caller)
  | create (parent : Path) (name : Name) (mode umask : ℕ) (flags : ℤ) (caller : Caller)
  | unlink (parent : Path) (name : Name) (caller : Caller)
  | rmdir (parent : Path) (name : Name) (caller : Caller)
  | rename (parent : Path) (name : Name) (newparent : Path) (newname : Name) (caller : Caller)
  | link (path newparent : Path) (newname : Name) (caller : Caller)
  | readdir (path : Path) (handle : Payload .dir) (offset : ℕ) (caller : Caller)
  | readdirplus (path : Path) (handle : Payload .dir) (offset : ℕ) (caller : Caller)

/-- The answers to the calls of `PathFilesystem`. -/
def PathCall.Resp {Payload : HandleKind → Type} : PathCall Payload → Type
  | .lookup _ _ _ => Fallible (Option NodeAttr)
  | .getattr _ _ _ => Fallible NodeAttr
  | .setattr _ _ _ _ => Fallible NodeAttr
  | .nodeOp _ _ _ => Fallible Value
  | .fileOp _ _ _ _ => Fallible Value
  | .fsyncdir _ _ _ _ => Fallible Unit
  | .statfs _ _ => Fallible StatFs
  | .openNode k _ _ _ => Fallible (Opened (Payload k))
  | .release _ _ _ _ => Fallible Unit
  | .mknod _ _ _ _ _ _ => Fallible NodeAttr
  | .mkdir _ _ _ _ _ => Fallible NodeAttr
  | .symlink _ _ _ _ => Fallible NodeAttr
  | .create _ _ _ _ _ _ => Fallible (NodeAttr × Opened (Payload .file))
  | .unlink _ _ _ => Fallible Unit
  | .rmdir _ _ _ => Fallible Unit
  | .rename _ _ _ _ _ => Fallible Unit
  | .link _ _ _ _ => Fallible NodeAttr
  | .readdir _ _ _ _ => Listing FileKind
  | .readdirplus _ _ _ _ => Listing NodeAttr

/-- A filesystem over paths. -/
structure PathFilesystem where
  /-- Per-open data. -/
  Payload : HandleKind → Type
  /-- Its own state. -/
  State : Type
  /-- What a call leaves open. -/
  Choice : Type
  /-- Its own state before the first call. -/
  init : State
  /-- The answer and the effect of a call; undefined while it has to wait. -/
  call : (c : PathCall Payload) → Choice → State → Option (c.Resp × State)

/-! ## The state of the adapter -/

/-- The payload of a node. -/
structure PathNode where
  key : ℕ
  deriving DecidableEq

/-- Where a node came from: the state of the inner filesystem when it was inserted, the path of
the directory and the name. -/
structure Birth (P : PathFilesystem) where
  inner : P.State
  dir : Option (Option Path)
  name : Name

/-- History variables of the adapter. -/
structure PathHistory (P : PathFilesystem) where
  /-- The thread that inserted the node bound to a name. -/
  binder : BTreeMap Dentry ℕ := ∅
  /-- The names that another thread has found bound since. -/
  found : Finset Dentry := ∅
  /-- Which thread got which node for which name from `Namespace::insert`, newest first. -/
  resolved : List (ℕ × Dentry × NodeId) := []
  /-- Where the node with a key came from. -/
  born : BTreeMap ℕ (Birth P) := ∅

/-- The thread `n` has looked for a name before inserting a node for it. -/
def PathHistory.know {P : PathFilesystem} (h : PathHistory P) (n : ℕ) (d : Dentry) :
    Option NodeId → PathHistory P
  | none => h
  | some id =>
    { h with
      found := if h.binder.lookup d = some n then h.found else insert d h.found
      resolved := (n, d, id) :: h.resolved }

/-- The shared state of the adapter. -/
structure PathState (P : PathFilesystem) where
  inner : P.State
  ns : Namespace
  /-- The namespace mutex is held. -/
  nsLocked : Bool
  /-- The number of read guards of the operations lock. -/
  readers : ℕ
  /-- The operations lock has a write guard. -/
  writing : Bool
  hist : PathHistory P

/-- The own steps of the adapter. -/
inductive PathInstr (P : PathFilesystem) where
  /-- `read_lock(&self.operations)`. -/
  | readLock
  /-- Drop the read guard. -/
  | readUnlock
  /-- `write_lock(&self.operations)`. -/
  | writeLock
  /-- Drop the write guard. -/
  | writeUnlock
  /-- `node_id`, a critical section of its own. -/
  | nodeId (key : ℕ)
  /-- `mutex(&self.namespace).path_for(id)`, a critical section of its own. -/
  | pathFor (id : NodeId)
  /-- `mutex(&self.namespace)` for a longer section. -/
  | nsLock
  /-- Drop the guard of the namespace. -/
  | nsUnlock
  /-- The test at the start of `Namespace::insert`. -/
  | known (d : Dentry)
  /-- The key that `Namespace::insert` takes. -/
  | takeKey
  /-- The end of `Namespace::insert`. -/
  | record (key : ℕ) (id : NodeId) (d : Dentry)
  /-- `by_name.get`. -/
  | find (d : Dentry)
  /-- `Namespace::remove`. -/
  | remove (d : Dentry)
  /-- `Namespace::add_alias`. -/
  | addAlias (id : NodeId) (d : Dentry)
  /-- A call of the inner filesystem. -/
  | inner (c : PathCall P.Payload)

/-- The answers to the own steps of the adapter. -/
def PathInstr.Resp {P : PathFilesystem} : PathInstr P → Type
  | .readLock => Unit
  | .readUnlock => Unit
  | .writeLock => Unit
  | .writeUnlock => Unit
  | .nodeId _ => Option NodeId
  | .pathFor _ => Option Path
  | .nsLock => Unit
  | .nsUnlock => Unit
  | .known _ => Option NodeId
  | .takeKey => ℕ
  | .record _ _ _ => Unit
  | .find _ => Option NodeId
  | .remove _ => Option NodeId
  | .addAlias _ _ => Unit
  | .inner c => c.Resp

namespace PathState

variable {P : PathFilesystem}

/-- The effect of an own step of the thread `n`.  A lock that is taken makes the step wait. -/
def exec (n : ℕ) (s : PathState P) :
    (i : PathInstr P) → P.Choice → Option (i.Resp × PathState P)
  | .readLock, _ =>
    if s.writing then none else some ((), { s with readers := s.readers + 1 })
  | .readUnlock, _ => some ((), { s with readers := s.readers - 1 })
  | .writeLock, _ =>
    if s.writing ∨ 0 < s.readers then none else some ((), { s with writing := true })
  | .writeUnlock, _ => some ((), { s with writing := false })
  | .nodeId key, _ => if s.nsLocked then none else some (s.ns.idForNode key, s)
  | .pathFor id, _ => if s.nsLocked then none else (s.ns.pathFor id).map fun p => (p, s)
  | .nsLock, _ => if s.nsLocked then none else some ((), { s with nsLocked := true })
  | .nsUnlock, _ => some ((), { s with nsLocked := false })
  | .known d, _ => some (s.ns.find d, { s with hist := s.hist.know n d (s.ns.find d) })
  | .takeKey, _ => s.ns.takeKey.map fun r => (r.1, { s with ns := r.2 })
  | .record key id d, _ =>
    some ((), { s with
      ns := s.ns.record key id d
      hist := { binder := s.hist.binder.insert d n
                found := s.hist.found.erase d
                resolved := (n, d, id) :: s.hist.resolved
                born := s.hist.born.insert key ⟨s.inner, s.ns.pathFor d.parent, d.name⟩ } })
  | .find d, _ => some (s.ns.find d, s)
  | .remove d, _ => some ((s.ns.remove d).1, { s with ns := (s.ns.remove d).2 })
  | .addAlias id d, _ => some ((), { s with ns := s.ns.addAlias id d })
  | .inner c, ch => (P.call c ch s.inner).map fun r => (r.1, { s with inner := r.2 })

end PathState

/-! ## The callbacks -/

namespace PathNodeFs

variable (P : PathFilesystem) {α β : Type}

/-- The types and own steps of the adapter. -/
def sig : FsSig where
  Node := PathNode
  Payload := P.Payload
  State := PathState P
  Instr := PathInstr P
  Resp := PathInstr.Resp
  Choice := P.Choice
  exec := fun n i ch s => s.exec n i ch

/-- A callback of the adapter. -/
abbrev Callback (α : Type) : Type :=
  FsProg (sig P) α

variable {P}

/-- Take an own step. -/
def own (i : PathInstr P) : Callback P i.Resp :=
  Prog.perform (FsInstr.own (σ := sig P) i)

/-- Call the inner filesystem. -/
def inner (c : PathCall P.Payload) : Callback P c.Resp :=
  own (.inner c)

/-- Pass a successful outcome on. -/
def onOk (outcome : Fallible α) (next : α → Callback P (Fallible β)) :
    Callback P (Fallible β) :=
  match outcome with
  | .error e => .ret (.error e)
  | .ok a => next a

/-- Run a callback under a read guard of the operations lock. -/
def reading (body : Callback P α) : Callback P α := do
  own .readLock
  let result ← body
  own .readUnlock
  return result

/-- Run a callback under a write guard of the operations lock. -/
def writing (body : Callback P α) : Callback P α := do
  own .writeLock
  let result ← body
  own .writeUnlock
  return result

/-- `node_path`: two critical sections. -/
def nodePath (node : PathNode) : Callback P (Option Path) := do
  match ← own (.nodeId node.key) with
  | none => return none
  | some id => own (.pathFor id)

/-- `self.node_path(node).ok_or(Errno::ENOENT)?` and the rest of the function. -/
def withPath (node : PathNode) (next : Path → Callback P (Fallible α)) :
    Callback P (Fallible α) := do
  match ← nodePath node with
  | none => return fail .ENOENT
  | some p => next p

/-- `self.path(id)?` and the rest of the function. -/
def withPathOf (id : NodeId) (next : Path → Callback P (Fallible α)) :
    Callback P (Fallible α) := do
  match ← own (.pathFor id) with
  | none => return fail .ENOENT
  | some p => next p

/-- `mutex(&self.namespace).insert(cx, parent, name)`: the node, and whether it is new. -/
def insert (parent : NodeId) (name : Name) : Callback P (NodeId × Bool) := do
  own .nsLock
  match ← own (.known ⟨parent, name⟩) with
  | some id =>
    own .nsUnlock
    return (id, false)
  | none =>
    let key ← own .takeKey
    let id ← Prog.perform (FsInstr.insert (σ := sig P) ⟨key⟩ parent)
    own (.record key id ⟨parent, name⟩)
    own .nsUnlock
    return (id, true)

/-- `add_node`. -/
def addNode (parent : NodeId) (name : Name) : Callback P NodeId := do
  let r ← insert parent name
  return r.1

/-- `add_enumerated_node`. -/
def addEnumeratedNode (parent : NodeId) (name : Name) : Callback P (NodeId × Option Dentry) := do
  let r ← insert parent name
  return (r.1, if r.2 then some ⟨parent, name⟩ else none)

/-- `if let Some(id) = removed { cx.remove_link(id) }`. -/
def removeLinkOf (removed : Option NodeId) : Callback P Unit :=
  match removed with
  | some id => Prog.perform (FsInstr.removeLink (σ := sig P) id)
  | none => .ret ()

/-- Remove a name and the link it stands for, all under the guard of the namespace: the body of
`rollback_dentry` and the end of `remove_entry`. -/
def removeDentry (d : Dentry) : Callback P Unit := do
  own .nsLock
  let removed ← own (.remove d)
  removeLinkOf removed
  own .nsUnlock

/-- `getattr`. -/
def getattr (node : PathNode) (handle : Option (P.Payload .file)) (caller : Caller) :
    Callback P (Fallible NodeAttr) :=
  reading do
    let path ← nodePath node
    inner (.getattr path handle caller)

/-- `setattr`. -/
def setattr (node : PathNode) (handle : Option (P.Payload .file)) (set : SetAttr)
    (caller : Caller) : Callback P (Fallible NodeAttr) :=
  reading do
    let path ← nodePath node
    inner (.setattr path handle set caller)

/-- `readlink`, `access`, `setxattr`, `getxattr`, `listxattr` and `removexattr`. -/
def nodeOp (op : NodeOp) (node : PathNode) (caller : Caller) : Callback P (Fallible Value) :=
  reading <| withPath node fun path => inner (.nodeOp op path caller)

/-- `read`, `write`, `flush`, `fsync`, `fallocate`, `lseek`, `getlk` and `setlk`. -/
def fileOp (op : FileOp) (node : PathNode) (handle : P.Payload .file) (caller : Caller) :
    Callback P (Fallible Value) :=
  reading do
    let path ← nodePath node
    inner (.fileOp op path handle caller)

/-- `fsyncdir`. -/
def fsyncdir (node : PathNode) (handle : P.Payload .dir) (datasync : Bool) (caller : Caller) :
    Callback P (Fallible Unit) :=
  reading do
    let path ← nodePath node
    inner (.fsyncdir path handle datasync caller)

/-- `statfs`. -/
def statfs (caller : Caller) : Callback P (Fallible StatFs) :=
  reading <| inner (.statfs Path.root caller)

/-- `open` and `opendir`. -/
def openNode (k : HandleKind) (node : PathNode) (flags : ℤ) (caller : Caller) :
    Callback P (Fallible (Opened (P.Payload k))) :=
  reading <| withPath node fun path => inner (.openNode k path flags caller)

/-- `release` and `releasedir`. -/
def release (k : HandleKind) (node : PathNode) (handle : P.Payload k) (caller : Caller) :
    Callback P (Fallible Unit) :=
  reading do
    let path ← nodePath node
    inner (.release k path handle caller)

/-- `lookup`. -/
def lookup (parent : NodeId) (name : Name) (caller : Caller) :
    Callback P (Fallible (Option NodeId)) :=
  reading <| withPathOf parent fun parentPath => do
    let found ← inner (.lookup parentPath name caller)
    onOk found fun attr =>
      match attr with
      | none => return .ok none
      | some _ => do
        let id ← addNode parent name
        return .ok (some id)

/-- `mknod`, `mkdir` and `symlink`: make the object, then name it. -/
def makeNode (parent : NodeId) (name : Name)
    (make : Path → Callback P (Fallible NodeAttr)) : Callback P (Fallible NodeId) :=
  writing <| withPathOf parent fun parentPath => do
    let made ← make parentPath
    onOk made fun _ => do
      let id ← addNode parent name
      return .ok id

/-- `link`. -/
def link (id newparent : NodeId) (newname : Name) (caller : Caller) :
    Callback P (Fallible NodeId) :=
  writing <| withPathOf id fun source => withPathOf newparent fun parent => do
    let linked ← inner (.link source parent newname caller)
    onOk linked fun _ => do
      own .nsLock
      own (.addAlias id ⟨newparent, newname⟩)
      own .nsUnlock
      Prog.perform (FsInstr.addLink (σ := sig P) id)
      return .ok id

/-- `mknod`, `mkdir`, `symlink` and `link`. -/
def makeOp (op : MakeOp) (caller : Caller) : Callback P (Fallible NodeId) :=
  match op with
  | .mknod parent name mode rdev umask =>
    makeNode parent name fun path => inner (.mknod path name mode rdev umask caller)
  | .mkdir parent name mode umask =>
    makeNode parent name fun path => inner (.mkdir path name mode umask caller)
  | .symlink parent name target =>
    makeNode parent name fun path => inner (.symlink path name target caller)
  | .link id newparent newname => link id newparent newname caller

/-- `rmdir` or `unlink` of the inner filesystem. -/
def removeInner (parentPath : Path) (name : Name) (directory : Bool) (caller : Caller) :
    Callback P (Fallible Unit) :=
  if directory then inner (.rmdir parentPath name caller)
  else inner (.unlink parentPath name caller)

/-- `remove_entry`. -/
def removeEntry (parent : NodeId) (name : Name) (directory : Bool) (caller : Caller) :
    Callback P (Fallible Value) :=
  writing <| withPathOf parent fun parentPath => do
    let removed ← removeInner parentPath name directory caller
    onOk removed fun _ => do
      removeDentry ⟨parent, name⟩
      return .ok .unit

/-- The end of `rename`, under the guard of the namespace. -/
def moveDentry (old new : Dentry) : Callback P Unit := do
  match ← own (.find old) with
  | none => return ()
  | some source =>
    let target : Option NodeId ← own (.find new)
    if target = some source then return ()
    else
      let replaced ← own (.remove new)
      removeLinkOf replaced
      let _ ← own (.remove old)
      own (.addAlias source new)
      Prog.perform (FsInstr.reparent (σ := sig P) source new.parent)

/-- `rename`. -/
def rename (parent : NodeId) (name : Name) (newparent : NodeId) (newname : Name) (flags : ℕ)
    (caller : Caller) : Callback P (Fallible Value) :=
  if flags ≠ 0 then .ret (fail .EOPNOTSUPP)
  else
    writing <| withPathOf parent fun oldParentPath => withPathOf newparent fun newParentPath => do
      let renamed ← inner (.rename oldParentPath name newParentPath newname caller)
      onOk renamed fun _ => do
        own .nsLock
        moveDentry ⟨parent, name⟩ ⟨newparent, newname⟩
        own .nsUnlock
        return .ok .unit

/-- `unlink`, `rmdir`, `rename`, and `copy_file_range` as the trait has it. -/
def treeOp (op : TreeOp) (caller : Caller) : Callback P (Fallible Value) :=
  match op with
  | .unlink parent name => removeEntry parent name false caller
  | .rmdir parent name => removeEntry parent name true caller
  | .rename parent name newparent newname flags =>
    rename parent name newparent newname flags caller
  | .copyFileRange _ _ _ _ _ _ => .ret (fail .ENOSYS)

/-- `create`. -/
def create (parent : NodeId) (name : Name) (mode umask : ℕ) (flags : ℤ) (caller : Caller) :
    Callback P (Fallible (NodeId × Opened (P.Payload .file))) :=
  writing <| withPathOf parent fun parentPath => do
    let created ← inner (.create parentPath name mode umask flags caller)
    onOk created fun (_, opened) => do
      let id ← addNode parent name
      return .ok (id, opened)

/-! ## Directory listings -/

/-- A directory callback of the adapter. -/
abbrev DirCallback (P : PathFilesystem) (D α : Type) : Type :=
  DirProg (sig P) D α

variable {D : Type}

/-- Push an entry into the reply sink. -/
def offer (name : Name) (id : NodeId) (data : D) (nextOffset : ℕ) : DirCallback P D Bool :=
  Prog.perform (DirInstr.add (σ := sig P) name id data nextOffset)

/-- The node of an emitted entry, and its name if the entry bound it. -/
def enumerate (this parent : NodeId) (name : Name) : Callback P (NodeId × Option Dentry) :=
  if name = Name.dot then return (this, none)
  else if name = Name.dotDot then return (parent, none)
  else addEnumeratedNode this name

/-- `BasicSink::add` and `PlusSink::add` for every entry that the inner filesystem emits, with the
names that were bound and accepted so far. -/
def emitAll (this parent : NodeId) :
    Listing D → List Dentry → DirCallback P D (Fallible Unit × List Dentry)
  | .finish result, inserted => return (result, inserted)
  | .emit name data nextOffset next, inserted => do
    let (id, dentry) ← FsProg.inDir (enumerate this parent name)
    let accepted ← offer name id data nextOffset
    match dentry with
    | none => emitAll this parent (next accepted) inserted
    | some d =>
      if accepted then emitAll this parent (next accepted) (inserted ++ [d])
      else
        FsProg.inDir (removeDentry d)
        emitAll this parent (next accepted) inserted

/-- `rollback`: the names are unbound from the last to the first. -/
def rollback : List Dentry → Callback P Unit
  | [] => return ()
  | d :: ds => do
    removeDentry d
    rollback ds

/-- A returned error unbinds what the listing has bound; unwinding does not. -/
def undo (result : Fallible Unit) (inserted : List Dentry) : Callback P Unit :=
  match result with
  | .error (.errno _) => rollback inserted.reverse
  | _ => .ret ()

/-- `readdir` and `readdirplus`. -/
def listDir (node : PathNode) (this parent : NodeId) (list : Path → Callback P (Listing D)) :
    DirCallback P D (Fallible Unit) := do
  FsProg.inDir (own .readLock)
  match ← FsProg.inDir (nodePath node) with
  | none =>
    FsProg.inDir (own .readUnlock)
    return fail .ENOENT
  | some path =>
    let listing ← FsProg.inDir (list path)
    let (result, inserted) ← emitAll this parent listing []
    FsProg.inDir (undo result inserted)
    FsProg.inDir (own .readUnlock)
    return result

end PathNodeFs

/-- `PathNodeFs`, as an implementation of `NodeFs`. -/
def pathNodeFs (P : PathFilesystem) : NodeFs where
  toFsSig := PathNodeFs.sig P
  init :=
    { inner := P.init, ns := Namespace.new, nsLocked := false, readers := 0, writing := false,
      hist := {} }
  root := (⟨1⟩ : PathNode)
  populate := .ret ()
  getattr := PathNodeFs.getattr
  setattr := PathNodeFs.setattr
  nodeOp := PathNodeFs.nodeOp
  fileOp := PathNodeFs.fileOp
  fsyncdir := PathNodeFs.fsyncdir
  statfs := PathNodeFs.statfs
  openNode := PathNodeFs.openNode
  release := PathNodeFs.release
  readdir := fun node this parent handle offset caller =>
    PathNodeFs.listDir node this parent fun path =>
      PathNodeFs.inner (.readdir path handle offset caller)
  readdirplus := fun node this parent handle offset caller =>
    PathNodeFs.listDir node this parent fun path =>
      PathNodeFs.inner (.readdirplus path handle offset caller)
  lookup := PathNodeFs.lookup
  makeOp := PathNodeFs.makeOp
  treeOp := PathNodeFs.treeOp
  create := PathNodeFs.create

end TypedFuse
