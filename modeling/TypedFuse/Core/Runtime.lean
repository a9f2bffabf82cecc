import TypedFuse.Conc.Logic
import TypedFuse.Core.Identity
import TypedFuse.Core.NodeFs

/-!
# The runtime

`Runtime` of `runtime.rs`, as a service in the sense of `Conc.Service`: the shared state is the
node table, the handle table and the filesystem's own state, every instruction is one critical
section, and every entry point is a program that follows the Rust source.  `?` and unwinding both
leave a function through its destructors, so leases are scopes: `withNode` and `withHandle` take a
lease, run the rest of the function and give the lease back, whatever its outcome is.

The state carries history variables that no instruction depends on: the live `NodeRef`s, the
lookups that were granted, forgotten, leaked or are held by the kernel, the opens that are being
registered or closed, and the handles whose payload was moved out.  `denote` and `leak` and
`discard` only write history.
-/

namespace TypedFuse

open Conc

/-- The instructions of the runtime. -/
inductive RtInstr (σ : FsSig) where
  /-- An instruction of a callback. -/
  | fs (i : FsInstr σ)
  /-- `Cx::get` on behalf of the runtime. -/
  | node (id : NodeId)
  /-- Drop a `NodeRef` of the runtime. -/
  | dropNode (r : NodeRef σ.Node)
  /-- A callback has returned this `NodeId`: what does it denote now? -/
  | denote (id : NodeId)
  /-- The first section of `entry_for`. -/
  | lease (id : NodeId)
  /-- The last section of `entry_for`. -/
  | grant (id : NodeId)
  /-- `plus_entry`. -/
  | plusEntry (id : NodeId)
  /-- `retain_lookup`. -/
  | retainLookup (id : NodeId)
  /-- `forget`. -/
  | forget (ino nlookup : ℕ)
  /-- Lookups that unwinding gives up without forgetting them. -/
  | leak (ids : List NodeId)
  /-- `add_open`. -/
  | addOpen (ino : ℕ)
  /-- `remove_open`. -/
  | removeOpen (ino : ℕ)
  /-- The parent of a live slot. -/
  | parentOf (ino : ℕ)
  /-- `add_file` and `add_dir`. -/
  | addHandle (k : HandleKind) (node : NodeId) (payload : σ.Payload k)
  /-- A handle that the filesystem returned is dropped without being registered. -/
  | discard (k : HandleKind) (payload : σ.Payload k)
  /-- Clone the `Arc` registered under a number. -/
  | findHandle (k : HandleKind) (fh : ℕ)
  /-- Move the `Arc` registered under a number out of the table. -/
  | removeHandle (k : HandleKind) (ino fh : ℕ)
  /-- `HandleRecord::acquire`. -/
  | acquire (k : HandleKind) (arc : HandleArc)
  /-- `HandleLease::deref`. -/
  | deref (k : HandleKind) (arc : HandleArc)
  /-- `HandleLease::drop`. -/
  | dropLease (k : HandleKind) (arc : HandleArc)
  /-- Drop an `Arc<HandleRecord>`. -/
  | dropArc (k : HandleKind) (arc : HandleArc)
  /-- `close_and_take`, setting `closing`. -/
  | close (k : HandleKind) (arc : HandleArc)
  /-- `close_and_take`, after the wait. -/
  | drain (k : HandleKind) (arc : HandleArc)
  /-- `close_and_take`, moving the payload out. -/
  | take (k : HandleKind) (arc : HandleArc)

/-- The answers to the instructions of the runtime. -/
def RtInstr.Resp {σ : FsSig} : RtInstr σ → Type
  | .fs i => i.Resp
  | .node _ => Option (NodeRef σ.Node)
  | .dropNode _ => Unit
  | .denote _ => Option (ℕ × ℕ)
  | .lease _ => Option (NodeRef σ.Node)
  | .grant _ => Option ℕ
  | .plusEntry _ => Option ℕ
  | .retainLookup _ => Option ℕ
  | .forget _ _ => Unit
  | .leak _ => Unit
  | .addOpen _ => Bool
  | .removeOpen _ => Unit
  | .parentOf _ => Option NodeId
  | .addHandle _ _ _ => ℕ
  | .discard _ _ => Unit
  | .findHandle _ _ => Option HandleArc
  | .removeHandle _ _ _ => Option HandleArc
  | .acquire _ _ => Bool
  | .deref k _ => σ.Payload k
  | .dropLease _ _ => Unit
  | .dropArc _ _ => Unit
  | .close _ _ => Bool
  | .drain _ _ => Unit
  | .take k _ => σ.Payload k

/-- History variables. -/
structure History where
  /-- Live `NodeRef`s owned by the runtime: inode and record. -/
  rtRefs : Multiset (ℕ × ℕ) := 0
  /-- Live `NodeRef`s owned by the filesystem. -/
  fsRefs : Multiset (ℕ × ℕ) := 0
  /-- Lookups counted by `entry_for` and `retain_lookup`. -/
  granted : Multiset ℕ := 0
  /-- Lookups given back by `forget`. -/
  forgotten : Multiset ℕ := 0
  /-- Lookups the kernel has received and not yet sent back. -/
  held : Multiset ℕ := 0
  /-- Retained lookups that unwinding gave up. -/
  leaked : Multiset ℕ := 0
  /-- Lookups that a thread has counted or was sent to give back, with the thread. -/
  pending : Multiset (ℕ × ℕ) := 0
  /-- Inodes with an open counted and the handle not yet registered. -/
  opening : Multiset ℕ := 0
  /-- Inodes with a handle removed and its open still counted. -/
  closing : Multiset ℕ := 0
  /-- Node identifiers that a callback has returned and `entry_for` has not yet leased. -/
  resolving : Multiset ℕ := 0
  /-- Live `HandleLease`s. -/
  handleLeases : Multiset (HandleKind × ℕ) := 0
  /-- Threads that found the returned node identifier dead and are about to fail. -/
  vanished : Multiset ℕ := 0
  /-- Handles whose payload was moved out for `release` or `releasedir`, with the thread. -/
  released : Multiset (ℕ × HandleKind × ℕ) := 0
  /-- Handles dropped without being registered. -/
  discarded : List HandleKind := []

/-- The shared state of the runtime. -/
structure RtState (σ : FsSig) where
  table : NodeTable σ.Node
  handles : Handles σ.Payload
  fs : σ.State
  hist : History

/-- What a `NodeRef` refers to. -/
def NodeRef.key {N : Type} (r : NodeRef N) : ℕ × ℕ :=
  (r.id, r.record.addr)

/-- The live `NodeRef`s among an optional answer. -/
def refKeys {N : Type} : Option (NodeRef N) → Multiset (ℕ × ℕ)
  | some r => {r.key}
  | none => 0

/-- The identity of a slot. -/
def Slot.ident {N : Type} (s : Slot N) : ℕ × ℕ :=
  (s.record.addr, s.generation)

namespace RtState

variable {σ : FsSig}

/-- The effect of an instruction of a callback, performed by the thread `n`.  A callback drops only
`NodeRef`s that the filesystem owns. -/
def execFs (s : RtState σ) (n : ℕ) :
    (i : FsInstr σ) → Option σ.Choice → Option (i.Resp × RtState σ)
  | .get id, _ =>
    (s.table.get id).map fun r =>
      (r.1, { s with table := r.2,
                     hist := { s.hist with fsRefs := refKeys r.1 + s.hist.fsRefs } })
  | .contains id, _ => some (s.table.contains id, s)
  | .insert payload parent, _ =>
    (s.table.insert payload parent).map fun r => (r.1, { s with table := r.2 })
  | .reparent id newParent, _ => some ((), { s with table := s.table.reparent id newParent })
  | .addLink id, _ => (s.table.addLink id).map fun t => ((), { s with table := t })
  | .removeLink id, _ => some ((), { s with table := s.table.removeLink id })
  | .dropRef r, _ =>
    if r.key ∈ s.hist.fsRefs then
      some ((), { s with table := s.table.dropRef r,
                         hist := { s.hist with fsRefs := s.hist.fsRefs.erase r.key } })
    else none
  | .own i, some ch => (σ.exec n i ch s.fs).map fun r => (r.1, { s with fs := r.2 })
  | .own _, none => none

/-- Count one more lookup of a node, on behalf of a thread. -/
def addLookup (s : RtState σ) (n : ℕ) (id : NodeId) : Option (Option ℕ × RtState σ) :=
  (s.table.addLookup id).map fun r =>
    (r.1, { s with table := r.2,
                   hist := if r.1.isSome then
                       { s.hist with granted := id ::ₘ s.hist.granted,
                                     pending := (n, id) ::ₘ s.hist.pending }
                     else s.hist })

/-- The effect of an instruction of the runtime, performed by the thread `n`. -/
def exec (s : RtState σ) (n : ℕ) :
    (i : RtInstr σ) → Option σ.Choice → Option (i.Resp × RtState σ)
  | .fs i, ch => s.execFs n i ch
  | .node id, _ =>
    (s.table.get id).map fun r =>
      (r.1, { s with table := r.2,
                     hist := { s.hist with rtRefs := refKeys r.1 + s.hist.rtRefs } })
  | .dropNode r, _ =>
    some ((), { s with table := s.table.dropRef r,
                       hist := { s.hist with rtRefs := s.hist.rtRefs.erase r.key } })
  | .denote id, _ =>
    some ((s.table.slot id).map Slot.ident,
      { s with hist := { s.hist with resolving := id ::ₘ s.hist.resolving } })
  | .lease id, _ =>
    (s.table.get id).map fun r =>
      (r.1, { s with table := r.2,
                     hist := { s.hist with
                       rtRefs := refKeys r.1 + s.hist.rtRefs,
                       resolving := s.hist.resolving.erase id,
                       vanished := if r.1.isSome then s.hist.vanished
                                   else n ::ₘ s.hist.vanished } })
  | .grant id, _ => s.addLookup n id
  | .plusEntry id, _ => some ((s.table.slot id).map Slot.generation, s)
  | .retainLookup id, _ => s.addLookup n id
  | .forget ino nlookup, _ =>
    some ((), { s with table := s.table.forget ino nlookup,
                       hist := { s.hist with
                         forgotten := Multiset.replicate nlookup ino + s.hist.forgotten,
                         pending := s.hist.pending - Multiset.replicate nlookup (n, ino) } })
  | .leak ids, _ =>
    some ((), { s with hist := { s.hist with
      leaked := ↑ids + s.hist.leaked,
      pending := s.hist.pending - Multiset.map (Prod.mk n) ↑ids } })
  | .addOpen ino, _ =>
    (s.table.addOpen ino).map fun r =>
      (r.1, { s with table := r.2,
                     hist := { s.hist with
                       opening := if r.1 then ino ::ₘ s.hist.opening else s.hist.opening } })
  | .removeOpen ino, _ =>
    some ((), { s with table := s.table.removeOpen ino,
                       hist := { s.hist with closing := s.hist.closing.erase ino } })
  | .parentOf ino, _ => some ((s.table.slot ino).map Slot.parent, s)
  | .addHandle k node payload, _ =>
    (s.handles.add k node payload).map fun r =>
      (r.1, { s with handles := r.2,
                     hist := { s.hist with opening := s.hist.opening.erase node } })
  | .discard k _, _ =>
    some ((), { s with hist := { s.hist with discarded := k :: s.hist.discarded } })
  | .findHandle k fh, _ => (s.handles.find k fh).map fun r => (r.1, { s with handles := r.2 })
  | .removeHandle k ino fh, _ =>
    let r := s.handles.remove k ino fh
    some (r.1, { s with handles := r.2,
                        hist := { s.hist with
                          closing := if r.1.isSome then ino ::ₘ s.hist.closing
                                     else s.hist.closing } })
  | .acquire k arc, _ =>
    (s.handles.acquire k arc.addr).map fun r =>
      (r.1, { s with handles := r.2,
                     hist := { s.hist with
                       handleLeases := if r.1 then (k, arc.addr) ::ₘ s.hist.handleLeases
                                       else s.hist.handleLeases } })
  | .deref k arc, _ => (s.handles.deref k arc.addr).map fun h => (h, s)
  | .dropLease k arc, _ =>
    (s.handles.dropLease k arc.addr).map fun hs =>
      ((), { s with handles := hs,
                    hist := { s.hist with
                      handleLeases := s.hist.handleLeases.erase (k, arc.addr) } })
  | .dropArc k arc, _ =>
    (s.handles.dropArc k arc.addr).map fun hs => ((), { s with handles := hs })
  | .close k arc, _ => (s.handles.close k arc.addr).map fun r => (r.1, { s with handles := r.2 })
  | .drain k arc, _ => (s.handles.drain k arc.addr).map fun hs => ((), { s with handles := hs })
  | .take k arc, _ =>
    (s.handles.take k arc.addr).map fun r =>
      (r.1, { s with handles := r.2,
                     hist := { s.hist with released := (n, k, arc.addr) ::ₘ s.hist.released } })

end RtState

/-! ## Requests and replies -/

/-- A reply sink: given the entries offered before, does it accept one more? -/
abbrev Sink (E : Type) : Type := List E → E → Bool

/-- An entry offered to the reply of `readdir`. -/
structure DirEntry where
  name : Name
  id : NodeId
  kind : FileKind
  nextOffset : ℕ
  deriving DecidableEq

/-- An entry offered to the reply of `readdirplus`. -/
structure PlusEntry where
  name : Name
  entry : EntryReply
  nextOffset : ℕ
  deriving DecidableEq

/-- The requests the runtime serves.  `populate` is the call from `Runtime::new`. -/
inductive Request where
  | populate
  | forget (ino nlookup : ℕ)
  | statfs (caller : Caller)
  | getattr (ino : ℕ) (fh : Option ℕ) (caller : Caller)
  | setattr (ino : ℕ) (fh : Option ℕ) (set : SetAttr) (caller : Caller)
  | nodeOp (op : NodeOp) (ino : ℕ) (caller : Caller)
  | fileOp (op : FileOp) (ino fh : ℕ) (caller : Caller)
  | fsyncdir (ino fh : ℕ) (datasync : Bool) (caller : Caller)
  | openNode (k : HandleKind) (ino : ℕ) (flags : ℤ) (caller : Caller)
  | release (k : HandleKind) (ino fh : ℕ) (caller : Caller)
  | readdir (ino fh offset : ℕ) (sink : Sink DirEntry) (caller : Caller)
  | readdirplus (ino fh offset : ℕ) (sink : Sink PlusEntry) (caller : Caller)
  | lookup (parent : ℕ) (name : Name) (caller : Caller)
  | makeOp (op : MakeOp) (caller : Caller)
  | treeOp (op : TreeOp) (caller : Caller)
  | create (parent : ℕ) (name : Name) (mode umask : ℕ) (flags : ℤ) (caller : Caller)

/-- An entry reply with its history: what the `NodeId` denoted when the callback returned it, and
the record whose attributes were read. -/
structure Entry where
  reply : EntryReply
  denoted : Option (ℕ × ℕ)
  leased : ℕ
  deriving DecidableEq

/-- The successful answers to requests. -/
inductive Reply where
  | unit
  | value (v : Value)
  | attr (a : NodeAttr)
  | stats (s : StatFs)
  | negative
  | entry (e : Entry)
  | opened (fh : ℕ) (hints : OpenHints)
  | created (e : Entry) (fh : ℕ) (hints : OpenHints)
  | listed (offered : List DirEntry)
  | retained (ids : List NodeId) (offered : List PlusEntry)
  deriving DecidableEq

namespace Runtime

variable {σ : FsSig} {α β : Type}

/-- A program of the runtime. -/
abbrev RtProg (σ : FsSig) (α : Type) : Type :=
  Prog (RtInstr σ) RtInstr.Resp α

/-- Perform an instruction of the runtime. -/
def sect (i : RtInstr σ) : RtProg σ i.Resp :=
  Prog.perform i

/-- Call the filesystem. -/
def call (p : FsProg σ α) : RtProg σ α :=
  p.embed .fs fun _ r => r

/-- `node(ino)?`, the rest of the function and the drop of the `NodeRef`. -/
def withNode (ino : ℕ) (body : NodeRef σ.Node → RtProg σ (Fallible α)) :
    RtProg σ (Fallible α) := do
  match ← sect (.node ino) with
  | none => return fail .ENOENT
  | some node =>
    let result ← body node
    sect (.dropNode node)
    return result

/-- `file(ino, fh)?` or `dir(ino, fh)?`, the rest of the function and the drop of the lease. -/
def withHandle (k : HandleKind) (ino fh : ℕ) (body : σ.Payload k → RtProg σ (Fallible α)) :
    RtProg σ (Fallible α) := do
  match ← sect (.findHandle k fh) with
  | none => return fail .EBADF
  | some record =>
    if record.node = ino then
      let granted : Bool ← sect (.acquire k record)
      if granted then
        sect (.dropArc k record)
        let payload ← sect (.deref k record)
        let result ← body payload
        sect (.dropLease k record)
        sect (.dropArc k record)
        return result
      else
        sect (.dropArc k record)
        return fail .EBADF
    else
      sect (.dropArc k record)
      return fail .EBADF

/-- `fh.map(|fh| self.file(ino, fh)).transpose()?` and the rest of the function. -/
def withOptionalFile (ino : ℕ) (fh : Option ℕ)
    (body : Option (σ.Payload .file) → RtProg σ (Fallible α)) : RtProg σ (Fallible α) :=
  match fh with
  | none => body none
  | some fh => withHandle .file ino fh fun payload => body (some payload)

/-- Pass a successful outcome on. -/
def onOk (outcome : Fallible α) (next : α → RtProg σ (Fallible β)) :
    RtProg σ (Fallible β) :=
  match outcome with
  | .error e => .ret (.error e)
  | .ok a => next a

variable (fs : NodeFs)

/-- `Runtime::entry_for`, from the moment the callback has returned `id`. -/
def entryFor (id : NodeId) (caller : Caller) : RtProg fs.toFsSig (Fallible Entry) := do
  let denoted ← sect (.denote id)
  match ← sect (.lease id) with
  | none => return fail .ENOENT
  | some node =>
    let result ← call (fs.getattr node.record.payload none caller)
    match result with
    | .error e =>
      sect (.dropNode node)
      return .error e
    | .ok attr =>
      match ← sect (.grant id) with
      | none =>
        sect (.dropNode node)
        return fail .ENOENT
      | some generation =>
        sect (.dropNode node)
        return .ok ⟨⟨id, generation, attr⟩, denoted, node.record.addr⟩

/-- `Runtime::forget`. -/
def forget (ino nlookup : ℕ) : RtProg σ Unit :=
  sect (.forget ino nlookup)

/-- Forget one lookup of each of a list of nodes. -/
def forgetAll : List NodeId → RtProg σ Unit
  | [] => return ()
  | id :: ids => do
    forget id 1
    forgetAll ids

/-- `Runtime::getattr`. -/
def getattr (ino : ℕ) (fh : Option ℕ) (caller : Caller) :
    RtProg fs.toFsSig (Fallible NodeAttr) :=
  withNode ino fun node =>
    withOptionalFile ino fh fun handle => call (fs.getattr node.record.payload handle caller)

/-- `Runtime::setattr`. -/
def setattr (ino : ℕ) (fh : Option ℕ) (set : SetAttr) (caller : Caller) :
    RtProg fs.toFsSig (Fallible NodeAttr) :=
  withNode ino fun node =>
    withOptionalFile ino fh fun handle => call (fs.setattr node.record.payload handle set caller)

/-- `readlink`, `access`, `setxattr`, `getxattr`, `listxattr` and `removexattr`. -/
def nodeOp (op : NodeOp) (ino : ℕ) (caller : Caller) : RtProg fs.toFsSig (Fallible Value) :=
  withNode ino fun node => call (fs.nodeOp op node.record.payload caller)

/-- `read`, `write`, `flush`, `fsync`, `fallocate`, `lseek`, `getlk` and `setlk`. -/
def fileOp (op : FileOp) (ino fh : ℕ) (caller : Caller) : RtProg fs.toFsSig (Fallible Value) :=
  withNode ino fun node =>
    withHandle .file ino fh fun handle => call (fs.fileOp op node.record.payload handle caller)

/-- `Runtime::fsyncdir`. -/
def fsyncdir (ino fh : ℕ) (datasync : Bool) (caller : Caller) :
    RtProg fs.toFsSig (Fallible Unit) :=
  withNode ino fun node =>
    withHandle .dir ino fh fun handle =>
      call (fs.fsyncdir node.record.payload handle datasync caller)

/-- `Runtime::open` and `Runtime::opendir`. -/
def openNode (k : HandleKind) (ino : ℕ) (flags : ℤ) (caller : Caller) :
    RtProg fs.toFsSig (Fallible (ℕ × OpenHints)) :=
  withNode ino fun node => do
    let result ← call (fs.openNode k node.record.payload flags caller)
    onOk result fun opened => do
      let live : Bool ← sect (.addOpen ino)
      if live then
        let fh ← sect (.addHandle k ino opened.handle)
        return .ok (fh, opened.hints)
      else
        sect (.discard k opened.handle)
        return fail .ENOENT

/-- `HandleRecord::close_and_take`. -/
def closeAndTake (k : HandleKind) (record : HandleArc) : RtProg σ (σ.Payload k) := do
  let drained : Bool ← sect (.close k record)
  if drained then
    sect (.take k record)
  else
    sect (.drain k record)
    sect (.take k record)

/-- `Runtime::release` and `Runtime::releasedir`. -/
def release (k : HandleKind) (ino fh : ℕ) (caller : Caller) :
    RtProg fs.toFsSig (Fallible Unit) := do
  match ← sect (.removeHandle k ino fh) with
  | none => return fail .EBADF
  | some record =>
    let result ← withNode ino fun node => do
      sect (.removeOpen ino)
      let handle ← closeAndTake k record
      call (fs.release k node.record.payload handle caller)
    sect (.dropArc k record)
    return result

/-- `Runtime::readdir`: entries go straight to the reply. -/
def readdir (ino fh offset : ℕ) (sink : Sink DirEntry) (caller : Caller) :
    RtProg fs.toFsSig (Fallible (List DirEntry)) :=
  withNode ino fun node => do
    match ← sect (.parentOf ino) with
    | none => return fail .ENOENT
    | some parent =>
      withHandle .dir ino fh fun handle => do
        let (result, offered) ←
          (fs.readdir node.record.payload ino parent handle offset caller).handle
            (fun i offered =>
              match i with
              | .fs i => sect (.fs i) >>= fun r => return (r, offered)
              | .add name id kind nextOffset =>
                let e : DirEntry := ⟨name, id, kind, nextOffset⟩
                return (sink offered e, offered ++ [e])) []
        return result.map fun _ => offered

/-- The state of the accounting sink of `readdirplus`: what was offered to the reply, and the nodes
whose lookup was retained, newest last. -/
structure Accounting where
  offered : List PlusEntry := []
  accepted : List NodeId := []

/-- `Accounting::add`. -/
def Accounting.add (sink : Sink PlusEntry) (acc : Accounting) (name : Name) (id : NodeId)
    (attr : NodeAttr) (nextOffset : ℕ) : RtProg σ (Bool × Accounting) := do
  match ← sect (.plusEntry id) with
  | none => return (false, acc)
  | some generation =>
    let e : PlusEntry := ⟨name, ⟨id, generation, attr⟩, nextOffset⟩
    let offered := acc.offered ++ [e]
    if sink acc.offered e then
      if name ≠ Name.dot ∧ name ≠ Name.dotDot then
        match ← sect (.retainLookup id) with
        | some _ => return (true, ⟨offered, acc.accepted ++ [id]⟩)
        | none => return (true, ⟨offered, acc.accepted⟩)
      else return (true, ⟨offered, acc.accepted⟩)
    else return (false, ⟨offered, acc.accepted⟩)

/-- `Runtime::readdirplus`.  Only a returned error forgets the retained lookups. -/
def readdirplus (ino fh offset : ℕ) (sink : Sink PlusEntry) (caller : Caller) :
    RtProg fs.toFsSig (Fallible (List NodeId × List PlusEntry)) :=
  withNode ino fun node => do
    match ← sect (.parentOf ino) with
    | none => return fail .ENOENT
    | some parent =>
      withHandle .dir ino fh fun handle => do
        let (result, acc) ←
          (fs.readdirplus node.record.payload ino parent handle offset caller).handle
            (fun i acc =>
              match i with
              | .fs i => sect (.fs i) >>= fun r => return (r, acc)
              | .add name id attr nextOffset => Accounting.add sink acc name id attr nextOffset)
            {}
        match result with
        | .ok _ => return .ok (acc.accepted, acc.offered)
        | .error (.errno e) =>
          forgetAll acc.accepted
          return fail e
        | .error .panic =>
          sect (.leak acc.accepted)
          return .error .panic

/-- `Runtime::lookup`. -/
def lookup (parent : ℕ) (name : Name) (caller : Caller) :
    RtProg fs.toFsSig (Fallible (Option Entry)) := do
  let result ← call (fs.lookup parent name caller)
  onOk result fun found =>
    match found with
    | some id => do
      let entry ← entryFor fs id caller
      return entry.map some
    | none => return .ok none

/-- `mknod`, `mkdir`, `symlink` and `link`. -/
def makeOp (op : MakeOp) (caller : Caller) : RtProg fs.toFsSig (Fallible Entry) := do
  let result ← call (fs.makeOp op caller)
  onOk result fun id => entryFor fs id caller

/-- `Runtime::create`. -/
def create (parent : ℕ) (name : Name) (mode umask : ℕ) (flags : ℤ) (caller : Caller) :
    RtProg fs.toFsSig (Fallible (Entry × ℕ × OpenHints)) := do
  let result ← call (fs.create parent name mode umask flags caller)
  onOk result fun (id, opened) => do
    match ← entryFor fs id caller with
    | .error e =>
      sect (.discard .file opened.handle)
      return .error e
    | .ok entry =>
      let live : Bool ← sect (.addOpen id)
      if live then
        let fh ← sect (.addHandle .file id opened.handle)
        return .ok (entry, fh, opened.hints)
      else
        sect (.leak [id])
        sect (.discard .file opened.handle)
        return fail .ENOENT

/-- The program that serves a request. -/
def serve : Request → RtProg fs.toFsSig (Fallible Reply)
  | .populate => do
    call fs.populate
    return .ok .unit
  | .forget ino nlookup => do
    forget ino nlookup
    return .ok .unit
  | .statfs caller => do
    let r ← call (fs.statfs caller)
    return r.map .stats
  | .getattr ino fh caller => do
    let r ← getattr fs ino fh caller
    return r.map .attr
  | .setattr ino fh set caller => do
    let r ← setattr fs ino fh set caller
    return r.map .attr
  | .nodeOp op ino caller => do
    let r ← nodeOp fs op ino caller
    return r.map .value
  | .fileOp op ino fh caller => do
    let r ← fileOp fs op ino fh caller
    return r.map .value
  | .fsyncdir ino fh datasync caller => do
    let r ← fsyncdir fs ino fh datasync caller
    return r.map fun _ => .unit
  | .openNode k ino flags caller => do
    let r ← openNode fs k ino flags caller
    return r.map fun o => .opened o.1 o.2
  | .release k ino fh caller => do
    let r ← release fs k ino fh caller
    return r.map fun _ => .unit
  | .readdir ino fh offset sink caller => do
    let r ← readdir fs ino fh offset sink caller
    return r.map .listed
  | .readdirplus ino fh offset sink caller => do
    let r ← readdirplus fs ino fh offset sink caller
    return r.map fun l => .retained l.1 l.2
  | .lookup parent name caller => do
    let r ← lookup fs parent name caller
    return r.map fun found =>
      match found with
      | some e => .entry e
      | none => .negative
  | .makeOp op caller => do
    let r ← makeOp fs op caller
    return r.map .entry
  | .treeOp op caller => do
    let r ← call (fs.treeOp op caller)
    return r.map .value
  | .create parent name mode umask flags caller => do
    let r ← create fs parent name mode umask flags caller
    return r.map fun c => .created c.1 c.2.1 c.2.2

/-- The lookups that an answer hands to the kernel. -/
def delivered : Fallible Reply → Multiset ℕ
  | .ok (.entry e) => {e.reply.ino}
  | .ok (.created e _ _) => {e.reply.ino}
  | .ok (.retained ids _) => ↑ids
  | _ => 0

/-- The kernel sends back the lookups named in a `forget`. -/
def issue (n : ℕ) (req : Request) (s : RtState σ) : RtState σ :=
  match req with
  | .forget ino nlookup =>
    { s with hist := { s.hist with
      held := s.hist.held - Multiset.replicate nlookup ino,
      pending := Multiset.replicate nlookup (n, ino) + s.hist.pending } }
  | _ => s

/-- The kernel receives the lookups of an answer. -/
def answer (n : ℕ) (a : Fallible Reply) (s : RtState σ) : RtState σ :=
  { s with hist := { s.hist with
    held := delivered a + s.hist.held,
    pending := s.hist.pending - (delivered a).map (Prod.mk n),
    vanished := s.hist.vanished.erase n } }

/-- The runtime with a filesystem, as a service. -/
def service : Service where
  Instr := RtInstr fs.toFsSig
  Resp := RtInstr.Resp
  Choice := Option fs.Choice
  State := RtState fs.toFsSig
  Req := Request
  Ans := Fallible Reply
  exec := fun n i ch s => s.exec n i ch
  prog := serve fs
  issue := fun n req s => some (issue n req s)
  answer := fun n _ a s => answer n a s

/-- The slot that `Runtime::new` stores for the root. -/
def rootSlot : Slot fs.Node where
  record := ⟨0, fs.root⟩
  generation := 0
  links := 1
  lookups := 0
  opens := 0
  leases := 0
  parent := NodeId.ROOT

/-- The state of `Runtime::new`, before `populate`. -/
def new : RtState fs.toFsSig where
  table := NodeTable.new.set NodeId.ROOT (rootSlot fs)
  handles := Handles.new
  fs := fs.init
  hist := {}

/-- The runtime before the first request. -/
def start : Service.Config (service fs) where
  state := new fs
  threads := []

end Runtime

end TypedFuse
