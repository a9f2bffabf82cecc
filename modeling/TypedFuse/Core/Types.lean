import TypedFuse.Core.NodeTable

/-!
# The values exchanged with the runtime

The types of `errno.rs`, `attr.rs` and `node_fs.rs` that requests and callbacks pass around.
Names are byte strings, as `OsStr` is on Unix.  A callback ends with a value, with an error number
or by unwinding, which is the type `Fallible`.
-/

namespace TypedFuse

/-- A file name: the bytes of an `OsStr`. -/
abbrev Name : Type := List UInt8

/-- The name `.` of a directory in itself. -/
def Name.dot : Name := [46]

/-- The name `..` of the parent directory. -/
def Name.dotDot : Name := [46, 46]

/-- A POSIX error number. -/
structure Errno where
  raw : ℤ
  deriving DecidableEq

namespace Errno

def EPERM : Errno := ⟨1⟩
def ENOENT : Errno := ⟨2⟩
def EIO : Errno := ⟨5⟩
def EBADF : Errno := ⟨9⟩
def EACCES : Errno := ⟨13⟩
def EINVAL : Errno := ⟨22⟩
def ENOSYS : Errno := ⟨38⟩
def EOVERFLOW : Errno := ⟨75⟩
def EOPNOTSUPP : Errno := ⟨95⟩

end Errno

/-- How a callback or a request fails: with an error number, or by unwinding from a panic. -/
inductive Failure where
  | errno (e : Errno)
  | panic
  deriving DecidableEq

/-- The outcome of a callback or a request. -/
abbrev Fallible (α : Type) : Type := Except Failure α

/-- Fail with an error number. -/
def fail {α : Type} (e : Errno) : Fallible α := .error (.errno e)

instance nanosPerSec_neZero : NeZero 1000000000 :=
  ⟨by decide⟩

/-- A point in time: whole seconds from the epoch and the nanoseconds after them. -/
structure SystemTime where
  secs : ℤ
  nanos : Fin 1000000000
  deriving DecidableEq

/-- `UNIX_EPOCH`. -/
def SystemTime.epoch : SystemTime := ⟨0, 0⟩

/-- The type bits of a mode. -/
def S_IFMT : ℕ := 0o170000

/-- The type of a filesystem entry. -/
inductive FileKind where
  | regularFile
  | directory
  | symlink
  | charDevice
  | blockDevice
  | namedPipe
  | socket
  deriving DecidableEq

/-- The attributes of a filesystem entry. -/
structure NodeAttr where
  size : ℕ := 0
  blocks : ℕ := 0
  atime : SystemTime := .epoch
  mtime : SystemTime := .epoch
  ctime : SystemTime := .epoch
  crtime : SystemTime := .epoch
  kind : FileKind := .regularFile
  perm : ℕ := 0
  nlink : ℕ := 0
  uid : ℕ := 0
  gid : ℕ := 0
  rdev : ℕ := 0
  blksize : ℕ := 0
  flags : ℕ := 0
  deriving DecidableEq

/-- A specific point in time or the current one. -/
inductive TimeOrNow where
  | specificTime (t : SystemTime)
  | now
  deriving DecidableEq

/-- The fields that a `setattr` request changes. -/
structure SetAttr where
  mode : Option ℕ := none
  uid : Option ℕ := none
  gid : Option ℕ := none
  size : Option ℕ := none
  atime : Option TimeOrNow := none
  mtime : Option TimeOrNow := none
  ctime : Option SystemTime := none
  crtime : Option SystemTime := none
  flags : Option ℕ := none
  deriving DecidableEq

/-- Filesystem-wide statistics. -/
structure StatFs where
  blocks : ℕ := 0
  bfree : ℕ := 0
  bavail : ℕ := 0
  files : ℕ := 0
  ffree : ℕ := 0
  bsize : ℕ := 0
  namelen : ℕ := 0
  frsize : ℕ := 0
  deriving DecidableEq

/-- Credentials of the process that issued a request. -/
structure Caller where
  uid : ℕ := 0
  gid : ℕ := 0
  pid : ℕ := 0
  umask : ℕ := 0
  deriving DecidableEq

/-- Kernel caching hints of an opened handle. -/
structure OpenHints where
  directIo : Bool := false
  keepCache : Bool := false
  nonseekable : Bool := false
  cacheReaddir : Bool := false
  parallelDirectWrites : Bool := false
  deriving DecidableEq

/-- What `open`, `opendir` and `create` return: the handle and its hints. -/
structure Opened (H : Type) where
  handle : H
  hints : OpenHints := {}

/-- The kind of a POSIX record lock. -/
inductive LockKind where
  | read
  | write
  | unlock
  deriving DecidableEq

/-- A POSIX record lock on the bytes from `start` to `end_`, both included. -/
structure FileLock where
  kind : LockKind
  start : ℕ
  end_ : ℕ
  pid : ℕ
  deriving DecidableEq

/-- The reply to `getxattr` and `listxattr`. -/
inductive XattrReply where
  | size (n : ℕ)
  | data (bytes : List UInt8)
  deriving DecidableEq

/-- The value a callback on a single node or handle returns. -/
inductive Value where
  | unit
  | bytes (data : List UInt8)
  | count (n : ℕ)
  | lock (l : FileLock)
  | xattr (x : XattrReply)
  | stats (s : StatFs)
  deriving DecidableEq

/-- `EntryReply`: an inode with its generation and attributes. -/
structure EntryReply where
  ino : ℕ
  generation : ℕ
  attr : NodeAttr
  deriving DecidableEq

/-- A handle belongs to a file or to a directory. -/
inductive HandleKind where
  | file
  | dir
  deriving DecidableEq

/-! ## Families of requests

Requests that the runtime serves in the same way are the members of one family. -/

/-- The requests on a node without a handle. -/
inductive NodeOp where
  | readlink
  | access (mask : ℤ)
  | setxattr (name : Name) (value : List UInt8) (flags : ℤ)
  | getxattr (name : Name) (size : ℕ)
  | listxattr (size : ℕ)
  | removexattr (name : Name)
  deriving DecidableEq

/-- The requests on an open file. -/
inductive FileOp where
  | read (offset size : ℕ)
  | write (data : List UInt8) (offset : ℕ)
  | flush
  | fsync (datasync : Bool)
  | fallocate (mode : ℤ) (offset length : ℕ)
  | lseek (offset : ℕ) (whence : ℤ)
  | getlk (owner : ℕ) (lock : FileLock)
  | setlk (owner : ℕ) (lock : FileLock) (sleep : Bool)
  deriving DecidableEq

/-- The requests that name a node and are answered with its entry. -/
inductive MakeOp where
  | mknod (parent : NodeId) (name : Name) (mode rdev umask : ℕ)
  | mkdir (parent : NodeId) (name : Name) (mode umask : ℕ)
  | symlink (parent : NodeId) (name : Name) (target : List UInt8)
  | link (id newparent : NodeId) (newname : Name)
  deriving DecidableEq

/-- The requests that only call the filesystem. -/
inductive TreeOp where
  | unlink (parent : NodeId) (name : Name)
  | rmdir (parent : NodeId) (name : Name)
  | rename (parent : NodeId) (name : Name) (newparent : NodeId) (newname : Name) (flags : ℕ)
  | copyFileRange (idIn : NodeId) (offIn : ℕ) (idOut : NodeId) (offOut len : ℕ) (flags : ℤ)
  deriving DecidableEq

end TypedFuse
