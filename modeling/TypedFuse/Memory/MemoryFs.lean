import Mathlib.Data.Finset.Sort
import Mathlib.Data.List.Lex
import TypedFuse.Core.Runtime

/-!
# The filesystem in memory

`MemoryFs` of `examples/memory_fs.rs`, a `NodeFs` that keeps its files in memory.  The payload of a
node is the address of a cell with its data behind an `RwLock`.  Every callback takes these locks
for single sections, in which it calls nothing that another request could notice, so each section is
one own step: reading a cell, or one of the changes in `Update`.  Between sections a callback calls
`Cx`, and it holds the `NodeRef` of the cell for as long as the source does.

The time is what `SystemTime::now` answers, in any order.  Overflow of a link count, and a file
that is too long for a `Vec`, panic under the lock of a writer and are left undefined.
-/

namespace TypedFuse

open Conc

namespace Errno

def EEXIST : Errno := ⟨17⟩
def ENOTDIR : Errno := ⟨20⟩
def EISDIR : Errno := ⟨21⟩
def ENOTEMPTY : Errno := ⟨39⟩
def ENODATA : Errno := ⟨61⟩

end Errno

/-! ## Names in order -/

/-- The order of an `OsString`: that of its bytes. -/
def Name.Le (a b : Name) : Prop :=
  a.map UInt8.toNat ≤ b.map UInt8.toNat

namespace Name

instance : DecidableRel Le :=
  fun a b => inferInstanceAs (Decidable (a.map UInt8.toNat ≤ b.map UInt8.toNat))

instance : IsTrans Name Le :=
  ⟨fun _ _ _ h h' => le_trans (α := List ℕ) h h'⟩

instance : Std.Total Le :=
  ⟨fun a b => le_total (a.map UInt8.toNat) (b.map UInt8.toNat)⟩

instance : Std.Antisymm Le :=
  ⟨fun _ _ h h' =>
    List.map_injective_iff.mpr (fun _ _ => UInt8.toNat_inj.mp) (le_antisymm h h')⟩

end Name

namespace MemoryFs

/-- The entries of a map from names, in the order of `BTreeMap::iter`. -/
def inOrder {V : Type} (m : BTreeMap Name V) : List (Name × V) :=
  (m.keys.sort Name.Le).filterMap fun name => (m.lookup name).map fun v => (name, v)

/-! ## The data of a node -/

/-- `DirEntry`. -/
structure DirEntry where
  id : NodeId
  kind : FileKind
  deriving DecidableEq

/-- `Content`. -/
inductive Content where
  | dir (entries : BTreeMap Name DirEntry)
  | file (data : List UInt8)
  | symlink (target : List UInt8)
  /-- A FIFO, a socket or a device node. -/
  | special

/-- `NodeData`. -/
structure NodeData where
  kind : FileKind
  content : Content
  perm : ℕ
  uid : ℕ
  gid : ℕ
  rdev : ℕ
  nlink : ℕ
  atime : SystemTime
  mtime : SystemTime
  ctime : SystemTime
  crtime : SystemTime
  xattrs : BTreeMap Name (List UInt8)

namespace NodeData

/-- The data that `Node::new` puts behind the lock. -/
def new (kind : FileKind) (content : Content) (perm uid gid rdev : ℕ) (now : SystemTime) :
    NodeData where
  kind := kind
  content := content
  perm := perm
  uid := uid
  gid := gid
  rdev := rdev
  nlink := if kind = .directory then 2 else 1
  atime := now
  mtime := now
  ctime := now
  crtime := now
  xattrs := ∅

/-- `NodeData::size`. -/
def size (d : NodeData) : ℕ :=
  match d.content with
  | .file data => data.length
  | .symlink target => target.length
  | _ => 0

/-- `NodeData::attr`. -/
def attr (d : NodeData) : NodeAttr where
  size := d.size
  kind := d.kind
  perm := d.perm
  uid := d.uid
  gid := d.gid
  rdev := d.rdev
  nlink := d.nlink
  atime := d.atime
  mtime := d.mtime
  ctime := d.ctime
  crtime := d.crtime

/-- `NodeData::touch`. -/
def touch (d : NodeData) (now : SystemTime) : NodeData :=
  { d with mtime := now, ctime := now }

end NodeData

/-- `XATTR_CREATE`. -/
def XATTR_CREATE : ℕ := 1

/-- `XATTR_REPLACE`. -/
def XATTR_REPLACE : ℕ := 2

/-- A bit of a C `int`. -/
def hasFlag (flags : ℤ) (flag : ℕ) : Bool :=
  (flags % 2 ^ 32).toNat &&& flag ≠ 0

/-- `Vec::resize` with zeros. -/
def resize (data : List UInt8) (n : ℕ) : List UInt8 :=
  data.take n ++ List.replicate (n - data.length) 0

/-- The longest `Vec<u8>`. -/
def maxLen : ℕ := 2 ^ 63 - 1

/-! ## Sections under a write guard -/

/-- What callbacks do to a cell under its write guard. -/
inductive Update where
  /-- `link_into`. -/
  | linkInto (name : Name) (entry : DirEntry) (now : SystemTime)
  /-- `unlink` and `rename`, in the directory that loses the name. -/
  | removeEntry (name : Name) (now : SystemTime)
  /-- `rmdir`, in the directory that loses the name. -/
  | removeSubdir (name : Name) (now : SystemTime)
  /-- A node loses one of its names. -/
  | unlinked (now : SystemTime)
  /-- A directory loses its name. -/
  | removed (now : SystemTime)
  /-- `link`, in the node that gets the name. -/
  | linked (now : SystemTime)
  /-- `rename`, in the directory that gets the name. -/
  | insertEntry (name : Name) (entry : DirEntry)
  /-- `touch`. -/
  | touch (now : SystemTime)
  /-- A directory has one subdirectory more. -/
  | addSubdir
  /-- A directory has one subdirectory less. -/
  | dropSubdir
  /-- `setattr`. -/
  | setattr (set : SetAttr) (now : SystemTime)
  /-- `write`. -/
  | write (data : List UInt8) (offset : ℕ) (now : SystemTime)
  /-- `setxattr`. -/
  | setxattr (name : Name) (value : List UInt8) (flags : ℤ) (now : SystemTime)
  /-- `removexattr`. -/
  | removexattr (name : Name) (now : SystemTime)

/-- What a section under a write guard answers; `insertEntry` with the entry that it replaces. -/
def Update.Resp : Update → Type
  | .linkInto _ _ _ => Unit
  | .removeEntry _ _ => Unit
  | .removeSubdir _ _ => Unit
  | .unlinked _ => Unit
  | .removed _ => Unit
  | .linked _ => Unit
  | .insertEntry _ _ => Fallible (Option DirEntry)
  | .touch _ => Unit
  | .addSubdir => Unit
  | .dropSubdir => Unit
  | .setattr _ _ => NodeAttr
  | .write _ _ _ => Fallible ℕ
  | .setxattr _ _ _ _ => Fallible Unit
  | .removexattr _ _ => Fallible Unit

namespace NodeData

/-- `entries.remove`, in a directory. -/
def eraseEntry (d : NodeData) (name : Name) : NodeData :=
  match d.content with
  | .dir entries => { d with content := .dir (entries.erase name) }
  | _ => d

/-- `entries.insert`, in a directory. -/
def insertEntry (d : NodeData) (name : Name) (entry : DirEntry) : NodeData :=
  match d.content with
  | .dir entries => { d with content := .dir (entries.insert name entry) }
  | _ => d

/-- `nlink += 1`. -/
def addLink (d : NodeData) : Option NodeData :=
  if d.nlink + 1 < 2 ^ 32 then some { d with nlink := d.nlink + 1 } else none

/-- `link_into`, under the guard. -/
def linkInto (d : NodeData) (name : Name) (entry : DirEntry) (now : SystemTime) : Option NodeData :=
  let d := d.insertEntry name entry
  (if entry.kind = .directory then d.addLink else some d).map fun d => d.touch now

/-- The time that a request asks for. -/
def pickTime (t : TimeOrNow) (now : SystemTime) : SystemTime :=
  match t with
  | .specificTime t => t
  | .now => now

/-- `setattr`, under the guard. -/
def setattr (d : NodeData) (set : SetAttr) (now : SystemTime) : Option NodeData :=
  let d := { d with perm := (set.mode.map fun mode => mode &&& 0o7777).getD d.perm }
  let d := { d with uid := set.uid.getD d.uid }
  let d := { d with gid := set.gid.getD d.gid }
  let resized : Option NodeData :=
    match set.size, d.content with
    | some size, .file data =>
      if size ≤ maxLen then some { d with content := .file (resize data size) } else none
    | _, _ => some d
  let changed := set.mode.isSome || set.uid.isSome || set.gid.isSome || set.size.isSome ||
    set.atime.isSome || set.mtime.isSome
  resized.map fun d =>
    let d := { d with atime := (set.atime.map (pickTime · now)).getD d.atime }
    let d := { d with mtime := (set.mtime.map (pickTime · now)).getD d.mtime }
    match set.ctime with
    | some ctime => { d with ctime := ctime }
    | none => if changed then { d with ctime := now } else d

/-- `content[offset..end].copy_from_slice(data)`. -/
def overwrite (content data : List UInt8) (offset : ℕ) : List UInt8 :=
  content.take offset ++ data ++ content.drop (offset + data.length)

/-- `write`, under the guard. -/
def write (d : NodeData) (data : List UInt8) (offset : ℕ) (now : SystemTime) :
    Option (Fallible ℕ × NodeData) :=
  match d.content with
  | .file content =>
    let stop := offset + data.length
    if stop ≤ maxLen then
      let content := if stop > content.length then resize content stop else content
      some (.ok data.length, { d with content := .file (overwrite content data offset) }.touch now)
    else none
  | _ => some (fail .EISDIR, d)

/-- `setxattr`, under the guard. -/
def setxattr (d : NodeData) (name : Name) (value : List UInt8) (flags : ℤ) (now : SystemTime) :
    Fallible Unit × NodeData :=
  let found := (d.xattrs.lookup name).isSome
  if hasFlag flags XATTR_CREATE && found then (fail .EEXIST, d)
  else if hasFlag flags XATTR_REPLACE && !found then (fail .ENODATA, d)
  else (.ok (), { d with xattrs := d.xattrs.insert name value, ctime := now })

/-- `removexattr`, under the guard. -/
def removexattr (d : NodeData) (name : Name) (now : SystemTime) : Fallible Unit × NodeData :=
  match d.xattrs.lookup name with
  | some _ => (.ok (), { d with xattrs := d.xattrs.erase name, ctime := now })
  | none => (fail .ENODATA, d)

/-- The answer and the effect of a section under the write guard. -/
def update (d : NodeData) : (u : Update) → Option (u.Resp × NodeData)
  | .linkInto name entry now => (d.linkInto name entry now).map fun d' => ((), d')
  | .removeEntry name now => some ((), (d.eraseEntry name).touch now)
  | .removeSubdir name now =>
    some ((), { d.eraseEntry name with nlink := d.nlink - 1 }.touch now)
  | .unlinked now => some ((), { d with nlink := d.nlink - 1, ctime := now })
  | .removed now => some ((), { d with nlink := 0, ctime := now })
  | .linked now => d.addLink.map fun d' => ((), { d' with ctime := now })
  | .insertEntry name entry =>
    match d.content with
    | .dir entries => some (.ok (entries.lookup name), d.insertEntry name entry)
    | _ => some (fail .ENOTDIR, d)
  | .touch now => some ((), d.touch now)
  | .addSubdir => d.addLink.map fun d' => ((), d')
  | .dropSubdir => some ((), { d with nlink := d.nlink - 1 })
  | .setattr set now => (d.setattr set now).map fun d' => (d'.attr, d')
  | .write data offset now => d.write data offset now
  | .setxattr name value flags now => some (d.setxattr name value flags now)
  | .removexattr name now => some (d.removexattr name now)

end NodeData

/-! ## The state of the filesystem -/

/-- The cells with the data of all nodes, and the address of the next one. -/
structure Heap where
  cells : BTreeMap ℕ NodeData
  next : ℕ

/-- The own steps of the filesystem. -/
inductive Instr where
  /-- `SystemTime::now`. -/
  | now
  /-- Put the data of a new node behind a lock. -/
  | alloc (data : NodeData)
  /-- A section under `Node::read`. -/
  | read (cell : ℕ)
  /-- A section under `Node::write`. -/
  | write (cell : ℕ) (u : Update)

/-- The answers to the own steps. -/
def Instr.Resp : Instr → Type
  | .now => SystemTime
  | .alloc _ => ℕ
  | .read _ => NodeData
  | .write _ u => u.Resp

namespace Heap

/-- The effect of an own step. -/
def exec (h : Heap) : (i : Instr) → SystemTime → Option (i.Resp × Heap)
  | .now, now => some (now, h)
  | .alloc data, _ => some (h.next, ⟨h.cells.insert h.next data, h.next + 1⟩)
  | .read cell, _ => (h.cells.lookup cell).map fun data => (data, h)
  | .write cell u, _ =>
    (h.cells.lookup cell).bind fun data =>
      (data.update u).map fun r => (r.1, { h with cells := h.cells.insert cell r.2 })

end Heap

/-- The types and own steps of the filesystem. -/
def sig : FsSig where
  Node := ℕ
  Payload := fun _ => Unit
  State := Heap
  Instr := Instr
  Resp := Instr.Resp
  Choice := SystemTime
  exec := fun _ i ch h => h.exec i ch

/-- A callback of the filesystem. -/
abbrev Callback (α : Type) : Type :=
  FsProg sig α

/-- Take an own step. -/
def own (i : Instr) : Callback i.Resp :=
  Prog.perform (FsInstr.own (σ := sig) i)

/-- `SystemTime::now`. -/
def now : Callback SystemTime :=
  own .now

/-- `if let Some(node) = cx.get(id)` with a section on the node. -/
def visit {α : Type} (id : NodeId) (guarded : ℕ → Callback α) : Callback (Option α) := do
  match ← Prog.perform (FsInstr.get (σ := sig) id) with
  | none => return none
  | some node =>
    let a ← guarded node.record.payload
    Prog.perform (FsInstr.dropRef (σ := sig) node)
    return some a

/-- A section under the read guard of a node. -/
def readNode (id : NodeId) : Callback (Option NodeData) :=
  visit id fun cell => own (.read cell)

/-- A section under the write guard of a node. -/
def writeNode (id : NodeId) (u : Update) : Callback (Option u.Resp) :=
  visit id fun cell => own (.write cell u)

/-! ## Helpers of the callbacks -/

/-- `MemoryFs::check_new_entry`. -/
def checkNewEntry (parent : NodeId) (name : Name) : Callback (Fallible Unit) := do
  match ← readNode parent with
  | some node =>
    match node.content with
    | .dir entries => return if (entries.lookup name).isSome then fail .EEXIST else .ok ()
    | _ => return fail .ENOTDIR
  | none => return fail .ENOENT

/-- `MemoryFs::entry`. -/
def entry (parent : NodeId) (name : Name) : Callback (Fallible DirEntry) := do
  match ← readNode parent with
  | none => return fail .ENOENT
  | some node =>
    match node.content with
    | .dir entries =>
      match entries.lookup name with
      | some e => return .ok e
      | none => return fail .ENOENT
    | _ => return fail .ENOTDIR

/-- `MemoryFs::kind`. -/
def kind (id : NodeId) : Callback (Fallible FileKind) := do
  match ← readNode id with
  | none => return fail .ENOENT
  | some node => return .ok node.kind

/-- Pass a successful outcome on. -/
def onOk {α β : Type} (outcome : Fallible α) (next : α → Callback (Fallible β)) :
    Callback (Fallible β) :=
  match outcome with
  | .error e => .ret (.error e)
  | .ok a => next a

/-- `MemoryFs::link_into`. -/
def linkInto (parent : NodeId) (name : Name) (entry : DirEntry) (now : SystemTime) :
    Callback Unit := do
  let _ ← writeNode parent (.linkInto name entry now)
  return ()

/-- `MemoryFs::create_child`. -/
def createChild (uid gid : ℕ) (parent : NodeId) (name : Name) (kind : FileKind)
    (content : Content) (perm rdev : ℕ) : Callback (Fallible NodeId) := do
  let checked ← checkNewEntry parent name
  onOk checked fun _ => do
    let created ← now
    let node ← own (.alloc (.new kind content perm uid gid rdev created))
    let id ← Prog.perform (FsInstr.insert (σ := sig) node parent)
    let linked ← now
    linkInto parent name ⟨id, kind⟩ linked
    return .ok id

/-! ## The callbacks -/

/-- The kind and the content of a node that `mknod` makes. -/
def contentOf (mode : ℕ) : Option (FileKind × Content) :=
  match mode &&& S_IFMT with
  | 0o100000 => some (.regularFile, .file [])
  | 0o010000 => some (.namedPipe, .special)
  | 0o140000 => some (.socket, .special)
  | 0o020000 => some (.charDevice, .special)
  | 0o060000 => some (.blockDevice, .special)
  | _ => none

/-- `lookup`. -/
def lookup (parent : NodeId) (name : Name) : Callback (Fallible (Option NodeId)) := do
  match ← entry parent name with
  | .ok e => return .ok (some e.id)
  | .error failure => return if failure = .errno .ENOENT then .ok none else .error failure

/-- `mknod`. -/
def mknod (uid gid : ℕ) (parent : NodeId) (name : Name) (mode rdev : ℕ) :
    Callback (Fallible NodeId) :=
  match contentOf mode with
  | some (kind, content) => createChild uid gid parent name kind content (mode &&& 0o7777) rdev
  | none => .ret (fail .EINVAL)

/-- `mkdir`. -/
def mkdir (uid gid : ℕ) (parent : NodeId) (name : Name) (mode : ℕ) :
    Callback (Fallible NodeId) :=
  createChild uid gid parent name .directory (.dir ∅) (mode &&& 0o7777) 0

/-- `symlink`. -/
def symlink (uid gid : ℕ) (parent : NodeId) (name : Name) (target : List UInt8) :
    Callback (Fallible NodeId) :=
  createChild uid gid parent name .symlink (.symlink target) 0o777 0

/-- `create`. -/
def create (uid gid : ℕ) (parent : NodeId) (name : Name) (mode : ℕ) :
    Callback (Fallible (NodeId × Opened Unit)) := do
  let made ← createChild uid gid parent name .regularFile (.file []) (mode &&& 0o7777) 0
  onOk made fun id => .ret (.ok (id, ⟨(), {}⟩))

/-- `unlink`. -/
def unlink (parent : NodeId) (name : Name) : Callback (Fallible Unit) := do
  let found ← entry parent name
  onOk found fun e => do
    let kind ← kind e.id
    onOk kind fun kind => do
      if kind = .directory then
        return fail .EISDIR
      else
        let now ← now
        let _ ← writeNode parent (.removeEntry name now)
        let _ ← writeNode e.id (.unlinked now)
        Prog.perform (FsInstr.removeLink (σ := sig) e.id)
        return .ok ()

/-- `rmdir`, from the moment the child is leased. -/
def rmdirChild (parent : NodeId) (name : Name) (id : NodeId) (cell : ℕ) :
    Callback (Fallible Unit) := do
  let child ← own (.read cell)
  match NodeData.content child with
  | .dir entries =>
    if entries = ∅ then
      let now ← now
      let _ ← writeNode parent (.removeSubdir name now)
      let _ ← writeNode id (.removed now)
      Prog.perform (FsInstr.removeLink (σ := sig) id)
      return .ok ()
    else
      return fail .ENOTEMPTY
  | _ => return fail .ENOTDIR

/-- `rmdir`.  The child is leased to the end. -/
def rmdir (parent : NodeId) (name : Name) : Callback (Fallible Unit) := do
  let found ← entry parent name
  onOk found fun e => do
    match ← visit e.id fun cell => rmdirChild parent name e.id cell with
    | none => return fail .ENOENT
    | some result => return result

/-- `rename`: may the entry be replaced? -/
def checkReplaced (targetIsDir : Bool) (existing : NodeId) : Callback (Fallible Unit) := do
  match ← readNode existing with
  | none => return fail .ENOENT
  | some node =>
    match node.content with
    | .dir entries =>
      return if ¬targetIsDir then fail .EISDIR
        else if entries ≠ ∅ then fail .ENOTEMPTY
        else .ok ()
    | _ => return if targetIsDir then fail .ENOTDIR else .ok ()

/-- `rename`: the entry that the new name replaced loses it. -/
def dropReplaced (newparent : NodeId) (now : SystemTime) (replaced : Option DirEntry) :
    Callback Unit :=
  match replaced with
  | none => .ret ()
  | some e => do
    if e.kind = .directory then
      let _ ← writeNode newparent .dropSubdir
      let _ ← writeNode e.id (.removed now)
      Prog.perform (FsInstr.removeLink (σ := sig) e.id)
    else
      let _ ← writeNode e.id (.unlinked now)
      Prog.perform (FsInstr.removeLink (σ := sig) e.id)

/-- `rename`: a directory moves to another one. -/
def moveSubdir (target parent newparent : NodeId) : Callback Unit := do
  Prog.perform (FsInstr.reparent (σ := sig) target newparent)
  let _ ← writeNode parent .dropSubdir
  let _ ← writeNode newparent .addSubdir
  return ()

/-- `rename`, when everything has been checked. -/
def renameEntry (parent : NodeId) (name : Name) (newparent : NodeId) (newname : Name)
    (target : DirEntry) : Callback (Fallible Unit) := do
  let now ← now
  let _ ← writeNode parent (.removeEntry name now)
  let inserted : Option (Fallible (Option DirEntry)) ←
    writeNode newparent (.insertEntry newname target)
  onOk (inserted.getD (.ok none)) fun replaced => do
    let _ ← writeNode newparent (.touch now)
    if target.kind = .directory ∧ parent ≠ newparent then
      moveSubdir target.id parent newparent
      dropReplaced newparent now replaced
      return .ok ()
    else
      dropReplaced newparent now replaced
      return .ok ()

/-- `rename`. -/
def rename (parent : NodeId) (name : Name) (newparent : NodeId) (newname : Name) :
    Callback (Fallible Unit) := do
  let found ← entry parent name
  onOk found fun e => do
    let targetKind ← kind e.id
    onOk targetKind fun targetKind => do
      match ← entry newparent newname with
      | .ok existing =>
        if existing.id = e.id then
          return .ok ()
        else
          let checked ← checkReplaced (targetKind = .directory) existing.id
          onOk checked fun _ => renameEntry parent name newparent newname ⟨e.id, targetKind⟩
      | .error failure =>
        if failure = .errno .ENOENT then
          renameEntry parent name newparent newname ⟨e.id, targetKind⟩
        else
          return .error failure

/-- `link`. -/
def link (id newparent : NodeId) (newname : Name) : Callback (Fallible NodeId) := do
  let linkedKind ← kind id
  onOk linkedKind fun linkedKind => do
    if linkedKind = .directory then
      return fail .EPERM
    else
      let checked ← checkNewEntry newparent newname
      onOk checked fun _ => do
        let now ← now
        let entryKind ← kind id
        onOk entryKind fun entryKind => do
          linkInto newparent newname ⟨id, entryKind⟩ now
          Prog.perform (FsInstr.addLink (σ := sig) id)
          let _ ← writeNode id (.linked now)
          return .ok id

/-- `getattr`. -/
def getattr (node : ℕ) : Callback (Fallible NodeAttr) := do
  let data ← own (.read node)
  return .ok (NodeData.attr data)

/-- `setattr`. -/
def setattr (node : ℕ) (set : SetAttr) : Callback (Fallible NodeAttr) := do
  let now ← now
  let attr ← own (.write node (.setattr set now))
  return .ok attr

/-- `readlink`. -/
def readlink (node : ℕ) : Callback (Fallible Value) := do
  let data ← own (.read node)
  match NodeData.content data with
  | .symlink target => return .ok (.bytes target)
  | _ => return fail .EINVAL

/-- `setxattr`. -/
def setxattr (node : ℕ) (name : Name) (value : List UInt8) (flags : ℤ) :
    Callback (Fallible Value) := do
  let now ← now
  let result : Fallible Unit ← own (.write node (.setxattr name value flags now))
  return result.map fun _ => .unit

/-- What `getxattr` answers. -/
def xattrValue (data : NodeData) (name : Name) (size : ℕ) : Fallible Value :=
  match data.xattrs.lookup name with
  | none => fail .ENODATA
  | some value => .ok (.xattr (if size = 0 then .size value.length else .data value))

/-- `getxattr`. -/
def getxattr (node : ℕ) (name : Name) (size : ℕ) : Callback (Fallible Value) := do
  let data ← own (.read node)
  return xattrValue data name size

/-- The names of extended attributes, each with a NUL after it. -/
def xattrNames (data : NodeData) : List UInt8 :=
  (inOrder data.xattrs).flatMap fun e => e.1 ++ [0]

/-- `listxattr`. -/
def listxattr (node : ℕ) (size : ℕ) : Callback (Fallible Value) := do
  let data ← own (.read node)
  let names := xattrNames data
  return .ok (.xattr (if size = 0 then .size names.length else .data names))

/-- `removexattr`. -/
def removexattr (node : ℕ) (name : Name) : Callback (Fallible Value) := do
  let now ← now
  let result : Fallible Unit ← own (.write node (.removexattr name now))
  return result.map fun _ => .unit

/-- The callbacks on a node without a handle.  Every access is granted, the default of `NodeFs`. -/
def nodeOp (op : NodeOp) (node : ℕ) : Callback (Fallible Value) :=
  match op with
  | .readlink => readlink node
  | .access _ => .ret (.ok .unit)
  | .setxattr name value flags => setxattr node name value flags
  | .getxattr name size => getxattr node name size
  | .listxattr size => listxattr node size
  | .removexattr name => removexattr node name

/-- `read`.  An end that overflows panics, which poisons no lock, since the guard is a reader's. -/
def read (node : ℕ) (offset size : ℕ) : Callback (Fallible Value) := do
  let data ← own (.read node)
  match NodeData.content data with
  | .file content =>
    if content.length ≤ offset then return .ok (.bytes [])
    else if offset + size < 2 ^ 64 then return .ok (.bytes ((content.drop offset).take size))
    else return .error .panic
  | _ => return fail .EISDIR

/-- `write`. -/
def write (node : ℕ) (data : List UInt8) (offset : ℕ) : Callback (Fallible Value) := do
  let now ← now
  let result : Fallible ℕ ← own (.write node (.write data offset now))
  return result.map .count

/-- The callbacks on an open file.  Those that are not implemented have the defaults of `NodeFs`. -/
def fileOp (op : FileOp) (node : ℕ) : Callback (Fallible Value) :=
  match op with
  | .read offset size => read node offset size
  | .write data offset => write node data offset
  | .flush => .ret (.ok .unit)
  | .fsync _ => .ret (.ok .unit)
  | .fallocate _ _ _ => .ret (fail .ENOSYS)
  | .lseek _ _ => .ret (fail .ENOSYS)
  | .getlk _ _ => .ret (fail .ENOSYS)
  | .setlk _ _ _ => .ret (fail .ENOSYS)

/-- `open` and `opendir`. -/
def openNode (k : HandleKind) (node : ℕ) : Callback (Fallible (Opened Unit)) := do
  let data ← own (.read node)
  match k with
  | .file => return if NodeData.kind data = .directory then fail .EISDIR else .ok ⟨(), {}⟩
  | .dir => return if NodeData.kind data ≠ .directory then fail .ENOTDIR else .ok ⟨(), {}⟩

/-- A directory callback of the filesystem. -/
abbrev DirCallback (α : Type) : Type :=
  DirProg sig FileKind α

/-- `sink.add`. -/
def add (name : Name) (id : NodeId) (kind : FileKind) (nextOffset : ℕ) : DirCallback Bool :=
  Prog.perform (DirInstr.add (σ := sig) name id kind nextOffset)

/-- The loop of `readdir` over the entries that are not skipped, the first of which has the number
`i`. -/
def emit (i : ℕ) : List (Name × DirEntry) → DirCallback Unit
  | [] => .ret ()
  | (name, e) :: rest => do
    let taken : Bool ← add name e.id e.kind (i + 3)
    if taken then emit (i + 1) rest else return ()

/-- `readdir`.  The sink only looks at the reply, so the guard that the source holds to the end
guards nothing but the copy of the entries. -/
def readdir (node : ℕ) (this parent : NodeId) (offset : ℕ) : DirCallback (Fallible Unit) := do
  let data ← FsProg.inDir (own (.read node))
  match NodeData.content data with
  | .dir entries =>
    let dot : Bool ← if offset < 1 then add Name.dot this .directory 1 else .ret true
    if dot then
      let dotDot : Bool ← if offset < 2 then add Name.dotDot parent .directory 2 else .ret true
      if dotDot then
        let skip := max offset 2 - 2
        emit skip ((inOrder entries).drop skip)
        return .ok ()
      else
        return .ok ()
    else
      return .ok ()
  | _ => return fail .ENOTDIR

/-- `mknod`, `mkdir`, `symlink` and `link`. -/
def makeOp (uid gid : ℕ) : MakeOp → Callback (Fallible NodeId)
  | .mknod parent name mode rdev _ => mknod uid gid parent name mode rdev
  | .mkdir parent name mode _ => mkdir uid gid parent name mode
  | .symlink parent name target => symlink uid gid parent name target
  | .link id newparent newname => link id newparent newname

/-- `unlink`, `rmdir` and `rename`; `copy_file_range` is not implemented. -/
def treeOp : TreeOp → Callback (Fallible Value)
  | .unlink parent name => do
    let result ← unlink parent name
    return result.map fun _ => .unit
  | .rmdir parent name => do
    let result ← rmdir parent name
    return result.map fun _ => .unit
  | .rename parent name newparent newname _ => do
    let result ← rename parent name newparent newname
    return result.map fun _ => .unit
  | .copyFileRange _ _ _ _ _ _ => .ret (fail .ENOSYS)

/-- The data of the root directory. -/
def rootData (uid gid : ℕ) (now : SystemTime) : NodeData :=
  .new .directory (.dir ∅) 0o755 uid gid 0 now

/-- `MemoryFs`, run by the user `uid` and the group `gid`, with a root that was made at `now`. -/
def fs (uid gid : ℕ) (now : SystemTime) : NodeFs where
  toFsSig := sig
  init := ⟨(∅ : BTreeMap ℕ NodeData).insert 0 (rootData uid gid now), 1⟩
  root := (0 : ℕ)
  populate := .ret ()
  getattr := fun node _ _ => getattr node
  setattr := fun node _ set _ => setattr node set
  nodeOp := fun op node _ => nodeOp op node
  fileOp := fun op node _ _ => fileOp op node
  fsyncdir := fun _ _ _ _ => .ret (.ok ())
  statfs := fun _ => .ret (.ok { bsize := 512, namelen := 255 })
  openNode := fun k node _ _ => openNode k node
  release := fun _ _ _ _ => .ret (.ok ())
  readdir := fun node this parent _ offset _ => readdir node this parent offset
  readdirplus := fun _ _ _ _ _ _ => .ret (fail .ENOSYS)
  lookup := fun parent name _ => lookup parent name
  makeOp := fun op _ => makeOp uid gid op
  treeOp := fun op _ => treeOp op
  create := fun parent name mode _ _ _ => create uid gid parent name mode

end MemoryFs

end TypedFuse
